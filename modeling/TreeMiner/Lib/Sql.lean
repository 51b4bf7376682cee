import Mathlib.Algebra.Group.Int.Defs
import Mathlib.Data.List.Forall2
import Mathlib.Data.List.Infix
import Mathlib.Data.List.Nodup
import Mathlib.Data.List.Perm.Basic

/-! Tables of an SQL database with their columns in order, the statements that change
their layout, and scripts that stop at the first statement that fails. How a value is
turned into the affinity of its column is a parameter. -/

namespace TreeMiner.Lib.Sql

inductive Datum
  | null
  | integer (n : Int)
  /-- the bits of a double -/
  | real (bits : UInt64)
  | text (s : String)
  | blob (bytes : List UInt8)
deriving DecidableEq, Repr

inductive Affinity
  | integer
  | real
  | text
deriving DecidableEq, Repr

structure Column where
  name : String
  affinity : Affinity
  notNull : Bool
  default : Datum
  /-- `INTEGER PRIMARY KEY` -/
  rowid : Bool
deriving DecidableEq, Repr

inductive Error
  | noSuchTable
  | noSuchColumn
  | duplicateColumn
  | tableExists
  | arity
  | notNull
  | unique
  | mismatch
  | full
deriving DecidableEq, Repr

/-- Rows are stored by position. -/
structure Table where
  columns : List Column
  rows : List (List Datum)
  aligned : ∀ row ∈ rows, row.length = columns.length

namespace Table

def empty (columns : List Column) : Table := ⟨columns, [], by simp⟩

def names (t : Table) : List String := t.columns.map Column.name

/-- What a row holds in a column. -/
def read (t : Table) (row : List Datum) (name : String) : Option Datum :=
  (t.names.zip row).lookup name

end Table

/-! ## Rows that are stored -/

def Datum.toInt? : Datum → Option Int
  | .integer n => some n
  | _ => none

/-- The ids in use. -/
def rowIds (columns : List Column) (rows : List (List Datum)) : List Int :=
  rows.flatMap fun row => (columns.zip row).filterMap fun cell =>
    if cell.1.rowid then cell.2.toInt? else none

/-- The id of a row that brings none: one above the largest. -/
def nextId (taken : List Int) : Except Error Datum :=
  let top := taken.foldl max 0
  if top ≥ 2 ^ 63 - 1 then .error .full else .ok (.integer (top + 1))

section

variable (coerce : Affinity → Datum → Datum)

def storeCell (taken : List Int) (c : Column) (v : Datum) : Except Error Datum :=
  let stored := coerce c.affinity v
  if c.rowid then
    match stored with
    | .null => nextId taken
    | .integer n => if n ∈ taken then .error .unique else .ok stored
    | _ => .error .mismatch
  else if c.notNull ∧ stored = .null then .error .notNull
  else .ok stored

def storeRow (taken : List Int) : List Column → List Datum → Except Error (List Datum)
  | c :: columns, v :: row =>
    match storeCell coerce taken c v, storeRow taken columns row with
    | .ok stored, .ok rest => .ok (stored :: rest)
    | .error e, _ => .error e
    | _, .error e => .error e
  | [], [] => .ok []
  | _, _ => .error .arity

/-- A row read under other columns than it was written under. -/
def relabel (columns : List Column) (row : List Datum) : List Datum :=
  List.zipWith (fun c v => coerce c.affinity v) columns row

/-- A row as the copy of another: what each column makes of its value, and an id for a row
that brings none. -/
def CopyOf : List Column → List Datum → List Datum → Prop
  | c :: columns, v :: row, stored :: copy =>
    (stored = coerce c.affinity v ∧ (c.notNull → stored ≠ .null) ∨
      c.rowid ∧ coerce c.affinity v = .null ∧ stored ≠ .null) ∧ CopyOf columns row copy
  | [], [], [] => True
  | _, _, _ => False

variable {coerce}

theorem storeCell_ok {taken : List Int} {c : Column} {v stored : Datum}
    (h : storeCell coerce taken c v = .ok stored) :
    stored = coerce c.affinity v ∧ (c.notNull → stored ≠ .null) ∨
      c.rowid ∧ coerce c.affinity v = .null ∧ stored ≠ .null := by
  unfold storeCell at h
  dsimp only at h
  split_ifs at h with hrowid hnull
  · split at h
    next hv =>
      unfold nextId at h
      dsimp only at h
      split_ifs at h
      cases h
      exact Or.inr ⟨hrowid, hv, by simp⟩
    next n hv =>
      split_ifs at h
      cases h
      exact Or.inl ⟨rfl, by simp [hv]⟩
    next => cases h
  · cases h
    exact Or.inl ⟨rfl, fun hc hs => hnull ⟨hc, hs⟩⟩

theorem storeRow_ok {taken : List Int} {columns : List Column} {row copy : List Datum}
    (h : storeRow coerce taken columns row = .ok copy) : CopyOf coerce columns row copy := by
  induction columns generalizing row copy with
  | nil =>
    cases row with
    | nil =>
      cases h
      trivial
    | cons v row => cases h
  | cons c columns ih =>
    cases row with
    | nil => cases h
    | cons v row =>
      unfold storeRow at h
      split at h
      next stored rest hcell hrest =>
        cases h
        exact ⟨storeCell_ok hcell, ih hrest⟩
      next => cases h
      next => cases h

theorem CopyOf.length {columns : List Column} {row copy : List Datum}
    (h : CopyOf coerce columns row copy) : copy.length = columns.length := by
  induction columns generalizing row copy with
  | nil => cases row <;> cases copy <;> simp_all [CopyOf]
  | cons c columns ih =>
    cases row with
    | nil => cases copy <;> exact h.elim
    | cons v row =>
      cases copy with
      | nil => exact h.elim
      | cons stored copy => exact congrArg (· + 1) (ih h.2)

/-- What a copy holds in a column that is no id. -/
theorem CopyOf.getElem? {columns : List Column} {row copy : List Datum}
    (h : CopyOf coerce columns row copy) {i : Nat} {c : Column} (hc : columns[i]? = some c)
    (hrowid : c.rowid = false) : copy[i]? = row[i]?.map (coerce c.affinity) := by
  induction columns generalizing row copy i with
  | nil => simp at hc
  | cons d columns ih =>
    cases row with
    | nil => cases copy <;> exact h.elim
    | cons v row =>
      cases copy with
      | nil => exact h.elim
      | cons stored copy =>
        cases i with
        | zero =>
          simp only [List.getElem?_cons_zero, Option.some.injEq] at hc
          subst hc
          rcases h.1 with ⟨hstored, -⟩ | ⟨hid, -⟩
          · simp [hstored]
          · rw [hrowid] at hid
            cases hid
        | succ i => exact ih h.2 hc

/-- Without a missing id a copy is the row under the new columns. -/
theorem CopyOf.eq_relabel {columns : List Column} {row copy : List Datum}
    (h : CopyOf coerce columns row copy)
    (hid : ∀ cell ∈ columns.zip row, cell.1.rowid = true →
      coerce cell.1.affinity cell.2 ≠ .null) :
    copy = relabel coerce columns row := by
  induction columns generalizing row copy with
  | nil =>
    cases row <;> cases copy <;> first | rfl | exact h.elim
  | cons c columns ih =>
    cases row with
    | nil => cases copy <;> exact h.elim
    | cons v row =>
      cases copy with
      | nil => exact h.elim
      | cons stored copy =>
        have hrest := ih h.2 fun cell hcell => hid cell (List.mem_cons_of_mem _ hcell)
        rcases h.1 with ⟨hstored, -⟩ | ⟨hrowid, hnull, -⟩
        · rw [hstored, hrest]
          rfl
        · exact absurd hnull (hid (c, v) List.mem_cons_self hrowid)

/-- A row the columns can hold as it is. -/
structure Fits (coerce : Affinity → Datum → Datum) (columns : List Column) (row : List Datum) :
    Prop where
  stored : ∀ cell ∈ columns.zip row, coerce cell.1.affinity cell.2 = cell.2
  notNull : ∀ cell ∈ columns.zip row, cell.1.notNull = true → cell.2 ≠ .null
  rowid : ∀ cell ∈ columns.zip row, cell.1.rowid = true → ∃ n, cell.2 = .integer n

theorem storeRow_fits {taken : List Int} {columns : List Column} {row : List Datum}
    (hlen : row.length = columns.length) (h : Fits coerce columns row)
    (hids : ∀ n ∈ rowIds columns [row], n ∉ taken) :
    storeRow coerce taken columns row = .ok row := by
  induction columns generalizing row with
  | nil =>
    cases row with
    | nil => rfl
    | cons v row => simp at hlen
  | cons c columns ih =>
    cases row with
    | nil => simp at hlen
    | cons v row =>
      have hmem : (c, v) ∈ (c :: columns).zip (v :: row) := List.mem_cons_self
      have hcell : storeCell coerce taken c v = .ok v := by
        unfold storeCell
        simp only [h.stored _ hmem]
        split_ifs with hrowid hnull
        · obtain ⟨n, hn⟩ := h.rowid _ hmem hrowid
          dsimp only at hn
          subst hn
          have hn : n ∉ taken := hids n (by simp [rowIds, hrowid, Datum.toInt?])
          simp [hn]
        · exact absurd hnull.2 (h.notNull _ hmem hnull.1)
        · rfl
      have hrest : storeRow coerce taken columns row = .ok row := by
        refine ih (by simpa using hlen)
          ⟨fun cell hc => h.stored cell (List.mem_cons_of_mem _ hc),
            fun cell hc => h.notNull cell (List.mem_cons_of_mem _ hc),
            fun cell hc => h.rowid cell (List.mem_cons_of_mem _ hc)⟩ ?_
        intro n hn
        apply hids n
        simp only [rowIds, List.flatMap_cons, List.flatMap_nil, List.append_nil,
          List.zip_cons_cons, List.filterMap_cons] at hn ⊢
        split
        · exact hn
        · exact List.mem_cons_of_mem _ hn
      unfold storeRow
      rw [hcell, hrest]

/-! ## Inserts -/

namespace Table

variable (coerce)

def insertRow (t : Table) (row : List Datum) : Except Error Table :=
  match h : storeRow coerce (rowIds t.columns t.rows) t.columns row with
  | .error e => .error e
  | .ok stored => .ok
    { t with
      rows := t.rows ++ [stored]
      aligned := by
        intro row hrow
        rcases List.mem_append.1 hrow with hrow | hrow
        · exact t.aligned row hrow
        · rw [List.mem_singleton.1 hrow]
          exact (storeRow_ok h).length }

/-- `INSERT INTO … SELECT *`, the rows one after the other. -/
def insertAll : Table → List (List Datum) → Except Error Table
  | t, [] => .ok t
  | t, row :: rows =>
    match insertRow coerce t row with
    | .error e => .error e
    | .ok t => insertAll t rows

variable {coerce}

theorem insertRow_ok {t t' : Table} {row : List Datum} (h : t.insertRow coerce row = .ok t') :
    t'.columns = t.columns ∧ ∃ copy, t'.rows = t.rows ++ [copy] ∧
      CopyOf coerce t.columns row copy := by
  unfold insertRow at h
  split at h
  next => cases h
  next stored hstored =>
    cases h
    exact ⟨rfl, stored, rfl, storeRow_ok hstored⟩

theorem insertAll_ok {t t' : Table} {rows : List (List Datum)}
    (h : t.insertAll coerce rows = .ok t') :
    t'.columns = t.columns ∧ ∃ copies, t'.rows = t.rows ++ copies ∧
      List.Forall₂ (CopyOf coerce t.columns) rows copies := by
  induction rows generalizing t with
  | nil =>
    cases h
    exact ⟨rfl, [], by simp, .nil⟩
  | cons row rows ih =>
    unfold insertAll at h
    split at h
    next => cases h
    next t₁ hrow =>
      obtain ⟨hcols₁, copy, hrows₁, hcopy⟩ := insertRow_ok hrow
      obtain ⟨hcols, copies, hrows, hcopies⟩ := ih h
      rw [hcols₁] at hcols hcopies
      refine ⟨hcols, copy :: copies, ?_, .cons hcopy hcopies⟩
      rw [hrows, hrows₁, List.append_assoc]
      rfl

theorem rowIds_append (columns : List Column) (rows rows' : List (List Datum)) :
    rowIds columns (rows ++ rows') = rowIds columns rows ++ rowIds columns rows' := by
  simp [rowIds]

/-- Rows that fit, under ids of their own, are inserted as they are. -/
theorem insertAll_fits {t : Table} {rows : List (List Datum)}
    (hlen : ∀ row ∈ rows, row.length = t.columns.length)
    (hfits : ∀ row ∈ rows, Fits coerce t.columns row)
    (hids : (rowIds t.columns (t.rows ++ rows)).Nodup) :
    ∃ t', t.insertAll coerce rows = .ok t' ∧ t'.columns = t.columns ∧
      t'.rows = t.rows ++ rows := by
  induction rows generalizing t with
  | nil => exact ⟨t, rfl, rfl, by simp⟩
  | cons row rows ih =>
    have hstore : storeRow coerce (rowIds t.columns t.rows) t.columns row = .ok row := by
      apply storeRow_fits (hlen row List.mem_cons_self) (hfits row List.mem_cons_self)
      rw [← List.singleton_append, rowIds_append, rowIds_append, List.nodup_append] at hids
      intro n hn htaken
      exact hids.2.2 n htaken n (List.mem_append_left _ hn) rfl
    obtain ⟨t₁, hrow, hcols₁, hrows₁⟩ : ∃ t₁, t.insertRow coerce row = .ok t₁ ∧
        t₁.columns = t.columns ∧ t₁.rows = t.rows ++ [row] := by
      unfold insertRow
      split
      next e he =>
        rw [hstore] at he
        cases he
      next stored hs =>
        rw [hstore] at hs
        cases hs
        exact ⟨_, rfl, rfl, rfl⟩
    obtain ⟨t', hall, hcols, hrows⟩ := ih (t := t₁)
      (by rw [hcols₁]; exact fun r hr => hlen r (List.mem_cons_of_mem _ hr))
      (by rw [hcols₁]; exact fun r hr => hfits r (List.mem_cons_of_mem _ hr))
      (by rw [hcols₁, hrows₁]; simpa using hids)
    refine ⟨t', ?_, by rw [hcols, hcols₁], ?_⟩
    · unfold insertAll
      rw [hrow]
      exact hall
    · rw [hrows, hrows₁, List.append_assoc]
      rfl

end Table

end

/-! ## Reading by name -/

theorem lookup_zip {names : List String} (hnodup : names.Nodup) {row : List Datum} {i : Nat}
    {name : String} (h : names[i]? = some name) : (names.zip row).lookup name = row[i]? := by
  induction names generalizing row i with
  | nil => simp at h
  | cons m names ih =>
    rw [List.nodup_cons] at hnodup
    cases row with
    | nil => simp
    | cons v row =>
      cases i with
      | zero =>
        simp only [List.getElem?_cons_zero, Option.some.injEq] at h
        simp [h]
      | succ i =>
        rw [List.getElem?_cons_succ] at h
        have hne : name ≠ m := by
          rintro rfl
          exact hnodup.1 (List.mem_of_getElem? h)
        rw [List.zip_cons_cons, List.lookup_cons, beq_false_of_ne hne]
        simpa using ih hnodup.2 h

namespace Table

theorem read_of_getElem? {t : Table} (hnodup : t.names.Nodup) {row : List Datum} {i : Nat}
    {c : Column} (h : t.columns[i]? = some c) : t.read row c.name = row[i]? := by
  apply lookup_zip hnodup
  simp [names, h]

/-- `t'` has the columns of `t`, and every row of `t` with the values it had. -/
structure Extends (t t' : Table) : Prop where
  names : t.names ⊆ t'.names
  rows : ∀ row ∈ t.rows, ∃ row' ∈ t'.rows, ∀ name ∈ t.names, t'.read row' name = t.read row name

theorem Extends.refl (t : Table) : t.Extends t :=
  ⟨List.Subset.refl _, fun row h => ⟨row, h, fun _ _ => rfl⟩⟩

theorem Extends.trans {t t' t'' : Table} (h : t.Extends t') (h' : t'.Extends t'') :
    t.Extends t'' := by
  refine ⟨List.Subset.trans h.names h'.names, fun row hrow => ?_⟩
  obtain ⟨row', hrow', hread'⟩ := h.rows row hrow
  obtain ⟨row'', hrow'', hread''⟩ := h'.rows row' hrow'
  exact ⟨row'', hrow'', fun name hname =>
    (hread'' name (h.names hname)).trans (hread' name hname)⟩

/-- `ADD COLUMN`: the column comes last, and holds its default. -/
def addColumn (t : Table) (c : Column) : Table where
  columns := t.columns ++ [c]
  rows := t.rows.map (· ++ [c.default])
  aligned := by
    intro row' hrow'
    obtain ⟨row, hrow, rfl⟩ := List.mem_map.1 hrow'
    simp [t.aligned row hrow]

theorem extends_addColumn (t : Table) (c : Column) : t.Extends (t.addColumn c) := by
  refine ⟨?_, fun row hrow => ⟨row ++ [c.default], List.mem_map_of_mem hrow, ?_⟩⟩
  · simp [names, addColumn]
  · intro name hname
    have hlen : t.names.length = row.length := by simp [names, t.aligned row hrow]
    have hzip : (t.addColumn c).names.zip (row ++ [c.default]) =
        t.names.zip row ++ [(c.name, c.default)] := by
      have hnames : (t.addColumn c).names = t.names ++ [c.name] := by simp [names, addColumn]
      rw [hnames, List.zip_append hlen]
      rfl
    rw [read, hzip, List.lookup_append]
    obtain ⟨i, hi, rfl⟩ := List.getElem_of_mem hname
    have hsome : ((t.names.zip row).lookup t.names[i]).isSome := by
      rw [List.lookup_isSome_iff]
      refine ⟨(t.names[i], row[i]), ?_, by simp⟩
      rw [List.mem_iff_getElem]
      exact ⟨i, by simp [hi, ← hlen], by simp⟩
    rw [Option.or_of_isSome hsome]
    rfl

theorem extends_insertAll {coerce : Affinity → Datum → Datum} {t t' : Table}
    {rows : List (List Datum)} (h : t.insertAll coerce rows = .ok t') : t.Extends t' := by
  obtain ⟨hcols, copies, hrows, -⟩ := insertAll_ok h
  refine ⟨by rw [names, names, hcols]; exact List.Subset.refl _, fun row hrow => ?_⟩
  refine ⟨row, by rw [hrows]; exact List.mem_append_left _ hrow, fun name _ => ?_⟩
  rw [read, read, names, names, hcols]

end Table

/-! ## Databases -/

/-- An index, partial when it has a filter `column = literal`. -/
structure Index where
  name : String
  table : String
  columns : List String
  filter : Option (String × Datum)
  unique : Bool
deriving DecidableEq, Repr

namespace Index

/-- The columns an index is made from. -/
def reads (i : Index) : List String := i.columns ++ (i.filter.map Prod.fst).toList

/-- What a row is indexed under; a row with a NULL there collides with none. -/
def key (i : Index) (t : Table) (row : List Datum) : Option (List (Option Datum)) :=
  let values := i.columns.map (t.read row)
  if (∀ f ∈ i.filter, t.read row f.1 = some f.2) ∧ some Datum.null ∉ values then some values
  else none

/-- No two rows under one key, where the index is unique. -/
def Holds (i : Index) (t : Table) : Prop :=
  i.unique = true → t.rows.Pairwise fun row row' => i.key t row = none ∨ i.key t row ≠ i.key t row'

instance (i : Index) (t : Table) : Decidable (i.Holds t) :=
  inferInstanceAs (Decidable (_ → _))

end Index

structure Db where
  tables : String → Option Table
  indexes : List Index

namespace Db

def setTable (d : Db) (name : String) (t : Option Table) : Db :=
  { d with tables := fun n => if n = name then t else d.tables n }

@[simp] theorem setTable_tables (d : Db) (name n : String) (t : Option Table) :
    (d.setTable name t).tables n = if n = name then t else d.tables n := rfl

@[simp] theorem setTable_indexes (d : Db) (name : String) (t : Option Table) :
    (d.setTable name t).indexes = d.indexes := rfl

/-- An index can be made: its columns are there, and its rows are apart. -/
def Admits (d : Db) (i : Index) : Prop :=
  ∃ t, d.tables i.table = some t ∧ (∀ c ∈ i.reads, c ∈ t.names) ∧ i.Holds t

/-- Every table is there still, with its columns and its rows. -/
def Extends (d d' : Db) : Prop :=
  ∀ name t, d.tables name = some t → ∃ t', d'.tables name = some t' ∧ t.Extends t'

/-- Every table is there still, as it was. -/
def Keeps (d d' : Db) : Prop := ∀ name t, d.tables name = some t → d'.tables name = some t

theorem Keeps.refl (d : Db) : d.Keeps d := fun _ _ h => h

theorem Keeps.trans {d d' d'' : Db} (h : d.Keeps d') (h' : d'.Keeps d'') : d.Keeps d'' :=
  fun name t ht => h' name t (h name t ht)

theorem Keeps.extends {d d' : Db} (h : d.Keeps d') : d.Extends d' :=
  fun name t ht => ⟨t, h name t ht, .refl t⟩

theorem Extends.trans {d d' d'' : Db} (h : d.Extends d') (h' : d'.Extends d'') :
    d.Extends d'' := by
  intro name t ht
  obtain ⟨t', ht', hext⟩ := h name t ht
  obtain ⟨t'', ht'', hext'⟩ := h' name t' ht'
  exact ⟨t'', ht'', hext.trans hext'⟩

end Db

/-! ## Statements and scripts -/

inductive Stmt
  /-- `CREATE TABLE IF NOT EXISTS` -/
  | createTable (name : String) (columns : List Column)
  /-- `CREATE INDEX IF NOT EXISTS` -/
  | createIndex (i : Index)
  | addColumn (name : String) (c : Column)
  /-- `INSERT INTO dst SELECT * FROM src` -/
  | copyAll (dst src : String)
  | insert (name : String) (values : List (String × Datum))
  | dropTable (name : String)
  | renameTable (name dst : String)
deriving DecidableEq, Repr

section

variable (coerce : Affinity → Datum → Datum)

/-- Rows go into a table if its unique indexes still hold. -/
def Db.insertInto (d : Db) (name : String) (rows : List (List Datum)) : Except Error Db :=
  match d.tables name with
  | none => .error .noSuchTable
  | some t =>
    match t.insertAll coerce rows with
    | .error e => .error e
    | .ok t' =>
      if ∀ i ∈ d.indexes, i.table = name → i.Holds t' then .ok (d.setTable name (some t'))
      else .error .unique

def exec (d : Db) : Stmt → Except Error Db
  | .createTable name columns =>
    match d.tables name with
    | some _ => .ok d
    | none => .ok (d.setTable name (some (.empty columns)))
  | .createIndex i =>
    if ∃ j ∈ d.indexes, j.name = i.name then .ok d
    else
      match d.tables i.table with
      | none => .error .noSuchTable
      | some t =>
        if ∀ c ∈ i.reads, c ∈ t.names then
          if i.Holds t then .ok { d with indexes := d.indexes ++ [i] } else .error .unique
        else .error .noSuchColumn
  | .addColumn name c =>
    match d.tables name with
    | none => .error .noSuchTable
    | some t =>
      if c.name ∈ t.names then .error .duplicateColumn
      else if c.notNull ∧ c.default = .null then .error .notNull
      else .ok (d.setTable name (some (t.addColumn c)))
  | .copyAll dst src =>
    match d.tables dst, d.tables src with
    | some t, some s =>
      if t.columns.length ≠ s.columns.length then .error .arity
      else d.insertInto coerce dst s.rows
    | _, _ => .error .noSuchTable
  | .insert name values =>
    match d.tables name with
    | none => .error .noSuchTable
    | some t =>
      if ¬ ∀ v ∈ values, v.1 ∈ t.names then .error .noSuchColumn
      else d.insertInto coerce name [t.columns.map fun c => (values.lookup c.name).getD c.default]
  | .dropTable name =>
    match d.tables name with
    | none => .error .noSuchTable
    | some _ => .ok { d.setTable name none with indexes := d.indexes.filter (·.table ≠ name) }
  | .renameTable name dst =>
    match d.tables name, d.tables dst with
    | some t, none => .ok
      { (d.setTable name none).setTable dst (some t) with
        indexes := d.indexes.map fun i => if i.table = name then { i with table := dst } else i }
    | none, _ => .error .noSuchTable
    | some _, some _ => .error .tableExists

/-- A script ends at the first statement that fails. -/
def runScript : List Stmt → Db → Except Error Db
  | [], d => .ok d
  | s :: script, d =>
    match exec coerce d s with
    | .error e => .error e
    | .ok d => runScript script d

/-- The statements of a block up to the first that fails; the failure is swallowed. -/
def attempt : List Stmt → Db → Db
  | [], d => d
  | s :: block, d =>
    match exec coerce d s with
    | .error _ => d
    | .ok d => attempt block d

variable {coerce}

theorem runScript_append (script script' : List Stmt) (d : Db) :
    runScript coerce (script ++ script') d =
      match runScript coerce script d with
      | .error e => .error e
      | .ok d => runScript coerce script' d := by
  induction script generalizing d with
  | nil => rfl
  | cons s script ih =>
    rw [List.cons_append, runScript, runScript]
    split
    · rfl
    · exact ih _

/-- What runs after the first of two scripts. -/
theorem runScript_append_ok {script script' : List Stmt} {d d₁ : Db}
    (h : runScript coerce script d = .ok d₁) :
    runScript coerce (script ++ script') d = runScript coerce script' d₁ := by
  rw [runScript_append, h]

theorem attempt_ok {d d₁ : Db} {s : Stmt} {block : List Stmt} (h : exec coerce d s = .ok d₁) :
    attempt coerce (s :: block) d = attempt coerce block d₁ := by
  rw [attempt, h]

theorem attempt_error {d : Db} {s : Stmt} {block : List Stmt} {e : Error}
    (h : exec coerce d s = .error e) : attempt coerce (s :: block) d = d := by
  rw [attempt, h]

/-! ### Statements that change no table -/

theorem insertInto_ok {d d' : Db} {name : String} {rows : List (List Datum)}
    (h : d.insertInto coerce name rows = .ok d') :
    ∃ t t', d.tables name = some t ∧ t.insertAll coerce rows = .ok t' ∧
      d' = d.setTable name (some t') := by
  unfold Db.insertInto at h
  split at h
  next => cases h
  next t ht =>
    split at h
    next => cases h
    next t' hall =>
      split_ifs at h
      cases h
      exact ⟨t, t', ht, hall, rfl⟩

theorem exec_createIndex_ok {d d' : Db} {i : Index}
    (h : exec coerce d (.createIndex i) = .ok d') :
    d'.tables = d.tables ∧ (d'.indexes = d.indexes ∨ d'.indexes = d.indexes ++ [i]) := by
  unfold exec at h
  dsimp only at h
  split_ifs at h
  · cases h
    exact ⟨rfl, Or.inl rfl⟩
  · split at h
    next => cases h
    next =>
      split_ifs at h
      cases h
      exact ⟨rfl, Or.inr rfl⟩

/-- An index is there afterwards if it was, or if the database admits it. -/
theorem exec_createIndex_iff (d : Db) (i : Index) :
    (∃ d', exec coerce d (.createIndex i) = .ok d') ↔
      (∃ j ∈ d.indexes, j.name = i.name) ∨ d.Admits i := by
  unfold exec Db.Admits
  dsimp only
  by_cases hthere : ∃ j ∈ d.indexes, j.name = i.name
  · rw [if_pos hthere]
    exact ⟨fun _ => Or.inl hthere, fun _ => ⟨d, rfl⟩⟩
  · rw [if_neg hthere, or_iff_right hthere]
    cases d.tables i.table with
    | none => simp
    | some t =>
      by_cases hcols : ∀ c ∈ i.reads, c ∈ t.names
      · by_cases hholds : i.Holds t
        · simpa [if_pos hcols, hholds] using hcols
        · simp [if_pos hcols, hholds]
      · simp [hcols]

/-- A statement that leaves every table as it is. -/
def Stmt.Quiet : Stmt → Prop
  | .createTable _ _ => True
  | .createIndex _ => True
  | _ => False

instance : DecidablePred Stmt.Quiet
  | .createTable _ _ => .isTrue trivial
  | .createIndex _ => .isTrue trivial
  | .addColumn _ _ => .isFalse id
  | .copyAll _ _ => .isFalse id
  | .insert _ _ => .isFalse id
  | .dropTable _ => .isFalse id
  | .renameTable _ _ => .isFalse id

theorem exec_quiet {d d' : Db} {s : Stmt} (hs : s.Quiet) (h : exec coerce d s = .ok d') :
    d.Keeps d' := by
  cases s with
  | createIndex i =>
    intro name t ht
    rw [(exec_createIndex_ok h).1, ht]
  | createTable name columns =>
    unfold exec at h
    dsimp only at h
    split at h
    next =>
      cases h
      exact .refl d
    next hnone =>
      cases h
      intro n t ht
      have hne : n ≠ name := by
        rintro rfl
        rw [hnone] at ht
        cases ht
      simpa [hne] using ht
  | _ => exact hs.elim

theorem attempt_quiet {block : List Stmt} (hblock : ∀ s ∈ block, s.Quiet) (d : Db) :
    d.Keeps (attempt coerce block d) := by
  induction block generalizing d with
  | nil => exact .refl d
  | cons s block ih =>
    unfold attempt
    split
    next => exact .refl d
    next d' hs =>
      exact (exec_quiet (hblock s List.mem_cons_self) hs).trans
        (ih (fun s hs => hblock s (List.mem_cons_of_mem _ hs)) d')

/-! ### Which tables the indexes are on -/

def Db.IndexedOn (tables : List String) (d : Db) : Prop := ∀ i ∈ d.indexes, i.table ∈ tables

/-- A statement that puts no index on another table. -/
def Stmt.IndexesOn (tables : List String) : Stmt → Prop
  | .createIndex i => i.table ∈ tables
  | .renameTable _ dst => dst ∈ tables
  | _ => True

instance (tables : List String) : DecidablePred (Stmt.IndexesOn tables)
  | .createTable _ _ => .isTrue trivial
  | .createIndex i => inferInstanceAs (Decidable (i.table ∈ tables))
  | .addColumn _ _ => .isTrue trivial
  | .copyAll _ _ => .isTrue trivial
  | .insert _ _ => .isTrue trivial
  | .dropTable _ => .isTrue trivial
  | .renameTable _ dst => inferInstanceAs (Decidable (dst ∈ tables))

theorem exec_indexedOn {tables : List String} {d d' : Db} {s : Stmt} (hs : s.IndexesOn tables)
    (hd : d.IndexedOn tables) (h : exec coerce d s = .ok d') : d'.IndexedOn tables := by
  cases s with
  | createIndex i =>
    rcases (exec_createIndex_ok h).2 with hsame | happ
    · rw [Db.IndexedOn, hsame]
      exact hd
    · rw [Db.IndexedOn, happ]
      intro j hj
      rcases List.mem_append.1 hj with hj | hj
      · exact hd j hj
      · rw [List.mem_singleton.1 hj]
        exact hs
  | createTable name columns =>
    unfold exec at h
    dsimp only at h
    split at h <;>
    · cases h
      exact hd
  | addColumn name c =>
    unfold exec at h
    dsimp only at h
    split at h
    next => cases h
    next =>
      split_ifs at h
      cases h
      exact hd
  | copyAll dst src =>
    unfold exec at h
    dsimp only at h
    split at h
    next =>
      split_ifs at h
      obtain ⟨t, t', -, -, rfl⟩ := insertInto_ok h
      exact hd
    next => cases h
  | insert name values =>
    unfold exec at h
    dsimp only at h
    split at h
    next => cases h
    next =>
      split_ifs at h
      obtain ⟨t, t', -, -, rfl⟩ := insertInto_ok h
      exact hd
  | dropTable name =>
    unfold exec at h
    dsimp only at h
    split at h
    next => cases h
    next =>
      cases h
      intro i hi
      exact hd i (List.mem_of_mem_filter hi)
  | renameTable name dst =>
    unfold exec at h
    dsimp only at h
    split at h
    next =>
      cases h
      intro i hi
      obtain ⟨j, hj, rfl⟩ := List.mem_map.1 hi
      split_ifs
      · exact hs
      · exact hd j hj
    next => cases h
    next => cases h

theorem attempt_indexedOn {tables : List String} {block : List Stmt} {d : Db}
    (hblock : ∀ s ∈ block, s.IndexesOn tables) (hd : d.IndexedOn tables) :
    (attempt coerce block d).IndexedOn tables := by
  induction block generalizing d with
  | nil => exact hd
  | cons s block ih =>
    unfold attempt
    split
    next => exact hd
    next d' hs =>
      exact ih (fun s hs => hblock s (List.mem_cons_of_mem _ hs))
        (exec_indexedOn (hblock s List.mem_cons_self) hd hs)

theorem runScript_indexedOn {tables : List String} {script : List Stmt} {d d' : Db}
    (hscript : ∀ s ∈ script, s.IndexesOn tables) (hd : d.IndexedOn tables)
    (h : runScript coerce script d = .ok d') : d'.IndexedOn tables := by
  induction script generalizing d with
  | nil =>
    cases h
    exact hd
  | cons s script ih =>
    unfold runScript at h
    split at h
    next => cases h
    next d₁ hs =>
      exact ih (fun s hs => hscript s (List.mem_cons_of_mem _ hs))
        (exec_indexedOn (hscript s List.mem_cons_self) hd hs) h

/-! ### The two halves of a schema script -/

/-- Tables that are missing are made, and the others stay. -/
theorem runScript_createTables (tables : List (String × List Column)) (d : Db) :
    ∃ d', runScript coerce (tables.map fun t => .createTable t.1 t.2) d = .ok d' ∧
      d'.indexes = d.indexes ∧
      ∀ name, d'.tables name = (d.tables name).or ((tables.lookup name).map .empty) := by
  induction tables generalizing d with
  | nil => exact ⟨d, rfl, rfl, by simp⟩
  | cons t tables ih =>
    obtain ⟨d₁, hexec, hidx, htables⟩ : ∃ d₁, exec coerce d (.createTable t.1 t.2) = .ok d₁ ∧
        d₁.indexes = d.indexes ∧
        ∀ name, d₁.tables name = if name = t.1 then (d.tables name).or (some (.empty t.2))
          else d.tables name := by
      unfold exec
      dsimp only
      cases ht : d.tables t.1 with
      | some old =>
        refine ⟨d, rfl, rfl, fun name => ?_⟩
        split_ifs with hname
        · simp [hname, ht]
        · rfl
      | none =>
        refine ⟨_, rfl, rfl, fun name => ?_⟩
        rw [Db.setTable_tables]
        split_ifs with hname
        · simp [hname, ht]
        · rfl
    obtain ⟨d', hrun, hidx', htables'⟩ := ih d₁
    refine ⟨d', ?_, hidx'.trans hidx, fun name => ?_⟩
    · rw [List.map_cons, runScript, hexec]
      exact hrun
    · obtain ⟨tname, columns⟩ := t
      rw [htables', htables, List.lookup_cons]
      by_cases hname : name = tname
      · subst hname
        cases d.tables name <;> simp
      · simp [hname, beq_false_of_ne hname]

/-- Indexes under different names can be made one after the other if each one alone can. -/
theorem runScript_createIndexes {indexes : List Index} (hnodup : (indexes.map Index.name).Nodup)
    (d : Db) :
    ((∃ d', runScript coerce (indexes.map .createIndex) d = .ok d') ↔
      ∀ i ∈ indexes, (∃ j ∈ d.indexes, j.name = i.name) ∨ d.Admits i) ∧
    ∀ d', runScript coerce (indexes.map .createIndex) d = .ok d' → d'.tables = d.tables := by
  induction indexes generalizing d with
  | nil =>
    refine ⟨by simp [runScript], fun d' h => ?_⟩
    cases h
    rfl
  | cons i indexes ih =>
    rw [List.map_cons, List.nodup_cons] at hnodup
    rw [List.map_cons, runScript, List.forall_mem_cons, ← @exec_createIndex_iff coerce]
    cases hexec : exec coerce d (.createIndex i) with
    | error e => simp
    | ok d₁ =>
      obtain ⟨htables, hidx⟩ := exec_createIndex_ok hexec
      obtain ⟨ihiff, ihtables⟩ := ih hnodup.2 d₁
      refine ⟨?_, fun d' h => (ihtables d' h).trans htables⟩
      simp only [Except.ok.injEq, exists_eq', true_and]
      rw [ihiff]
      refine forall₂_congr fun k hk => or_congr ?_ (by rw [Db.Admits, Db.Admits, htables])
      rcases hidx with hsame | happ
      · rw [hsame]
      · rw [happ]
        have hne : i.name ≠ k.name := fun h => hnodup.1 (h ▸ List.mem_map_of_mem hk)
        simp [or_and_right, exists_or, hne]

end

end TreeMiner.Lib.Sql
