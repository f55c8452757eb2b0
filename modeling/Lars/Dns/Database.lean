import Lars.Dns.Key
import Mathlib.Data.Int.Notation

/-!
# The database

The tables of `base/sql/lars_dns.sql` that the DNS server reads: `RouteData`, `RouteVersion` (its
row with `id` 1) and `RouteChange`. The rows of `RouteChange` have ids from a counter, kept in the
structure: no id is given twice.

External writers change the tables in transactions. A query of the server is answered, or fails in
`mysql_real_query` or in `mysql_store_result`.
-/

namespace Lars.Dns

/-- A row of `RouteData`. -/
structure RouteRow where
  modid : UInt32
  cmdid : UInt32
  serverip : UInt32
  serverport : UInt32
  deriving DecidableEq

/-- A row of `RouteChange`. -/
structure ChangeRow where
  id : ℕ
  modid : UInt32
  cmdid : UInt32
  version : UInt64
  deriving DecidableEq

/-- `RouteData` and `RouteVersion`. -/
structure Tables where
  routeData : List RouteRow
  routeVersion : Option UInt32

/-- The version as a `long`. -/
def Tables.version (tables : Tables) : Option ℤ := tables.routeVersion.map fun v => (v.toNat : ℤ)

/-- The database. -/
structure Database where
  tables : Tables
  routeChange : List ChangeRow
  autoIncrement : ℕ
  id_lt : ∀ row ∈ routeChange, row.id < autoIncrement
  nodup : (routeChange.map ChangeRow.id).Nodup

/-- What a writer commits: new contents of `RouteData`, a new version, rows for `RouteChange`. -/
structure Transaction where
  routeData : Option (List RouteRow) := none
  routeVersion : Option UInt32 := none
  changes : List (UInt32 × UInt32 × UInt64) := []

/-- The end of a query. -/
inductive QueryAnswer
  | ok
  | queryError
  | storeError
  deriving DecidableEq

namespace Database

/-- `INSERT INTO RouteChange`. -/
def insertChange (db : Database) (modid cmdid : UInt32) (version : UInt64) : Database where
  tables := db.tables
  routeChange := db.routeChange ++ [⟨db.autoIncrement, modid, cmdid, version⟩]
  autoIncrement := db.autoIncrement + 1
  id_lt row hrow := by
    rcases List.mem_append.mp hrow with h | h
    · exact Nat.lt_succ_of_lt (db.id_lt row h)
    · rw [List.mem_singleton.mp h]
      exact Nat.lt_succ_self _
  nodup := by
    rw [List.map_append, List.nodup_append]
    refine ⟨db.nodup, by simp, fun i hi j hj => ?_⟩
    obtain ⟨row, hrow, rfl⟩ := List.mem_map.mp hi
    rw [List.mem_singleton.mp hj]
    exact Nat.ne_of_lt (db.id_lt row hrow)

/-- `DELETE FROM RouteChange WHERE` a condition. -/
def deleteChanges (db : Database) (cond : ChangeRow → Bool) : Database where
  tables := db.tables
  routeChange := db.routeChange.filter fun row => !cond row
  autoIncrement := db.autoIncrement
  id_lt row hrow := db.id_lt row (List.mem_filter.mp hrow).1
  nodup := db.nodup.sublist (List.filter_sublist.map _)

/-- A transaction. -/
def commit (db : Database) (t : Transaction) : Database :=
  t.changes.foldl (fun db c => db.insertChange c.1 c.2.1 c.2.2)
    { db with tables :=
      { routeData := t.routeData.getD db.tables.routeData
        routeVersion := t.routeVersion.or db.tables.routeVersion } }

/-- What a transaction does to the other tables. -/
theorem tables_commit (db : Database) (t : Transaction) :
    (db.commit t).tables =
      { routeData := t.routeData.getD db.tables.routeData
        routeVersion := t.routeVersion.or db.tables.routeVersion } := by
  have hinsert : ∀ (cs : List (UInt32 × UInt32 × UInt64)) (db : Database),
      (cs.foldl (fun db c => db.insertChange c.1 c.2.1 c.2.2) db).tables = db.tables := by
    intro cs
    induction cs with
    | nil => exact fun _ => rfl
    | cons c cs ih => exact fun db => ih _
  exact hinsert t.changes _

/-- A version once there is not taken away. -/
theorem version_commits {db : Database} (h : db.tables.routeVersion.isSome)
    (ts : List Transaction) :
    (ts.foldl commit db).tables.routeVersion.isSome := by
  induction ts generalizing db with
  | nil => exact h
  | cons t ts ih =>
    refine ih ?_
    rw [tables_commit]
    cases t.routeVersion with
    | none => exact h
    | some v => rfl

/-- What is new in `RouteChange` after a transaction is of it. -/
theorem mem_routeChange_commit {db : Database} {t : Transaction} {row : ChangeRow}
    (h : row ∈ (db.commit t).routeChange) :
    row ∈ db.routeChange ∨ ∃ c ∈ t.changes, row.version = c.2.2 := by
  have hinsert : ∀ (cs : List (UInt32 × UInt32 × UInt64)) (db : Database),
      row ∈ (cs.foldl (fun db c => db.insertChange c.1 c.2.1 c.2.2) db).routeChange →
        row ∈ db.routeChange ∨ ∃ c ∈ cs, row.version = c.2.2 := by
    intro cs
    induction cs with
    | nil => exact fun _ h => Or.inl h
    | cons c cs ih =>
      intro db h
      rcases ih _ h with h | ⟨c', hc', h⟩
      · rcases List.mem_append.mp h with h | h
        · exact Or.inl h
        · exact Or.inr ⟨c, List.mem_cons_self, by rw [List.mem_singleton.mp h]⟩
      · exact Or.inr ⟨c', List.mem_cons_of_mem _ hc', h⟩
  have hnew := hinsert t.changes _ h
  exact hnew

end Database

end Lars.Dns
