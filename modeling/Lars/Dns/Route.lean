import Lars.Dns.Database
import Lars.Foundations.SetMap

/-!
# The route singleton

`route` (`lars_dns/src/dns_route.cc`) holds two route maps: the one served, behind `m_data_pointer`,
and the one the next load fills, behind `m_tmp_pointer`. `swap` exchanges the pointers, after
putting a copy in the served map's place if a reader still holds it.

The maps allocated are kept in `heap`, so that pointers have an identity; the two members point to
different maps, and this is a field of the structure. Whether `m_data_pointer` is the only owner of
its map is up to the readers, and an argument of `swap`.

The lemmas say what a load and a swap do to the map served.
-/

namespace Lars.Dns

/-- `route_map`. -/
abbrev RouteMap := SetMap UInt64 UInt64

/-- A row of `RouteData` put into a map: the body of the loops of `build_maps` and
`load_route_data`. -/
def insertRow (m : RouteMap) (row : RouteRow) : RouteMap :=
  let modid := atoi row.modid
  let cmdid := atoi row.cmdid
  let ip := (atoi row.serverip).toUInt32
  let port := atoi row.serverport
  m.emplace (routeKey modid cmdid) (hostValue ip port)

/-- The map of a table. -/
def routeMap (rows : List RouteRow) : RouteMap := rows.foldl insertRow ∅

/-- The key of a row of `RouteChange`. -/
def changeKey (row : ChangeRow) : UInt64 := routeKey (atoi row.modid) (atoi row.cmdid)

/-- `route`. -/
structure Route where
  version : ℤ
  heap : ℕ → RouteMap
  next : ℕ
  dataPointer : ℕ
  tmpPointer : ℕ
  data_lt : dataPointer < next
  tmp_lt : tmpPointer < next
  distinct : dataPointer ≠ tmpPointer

namespace Route

/-- The members of `route::route` before the database is read. -/
def new : Route where
  version := 0
  heap _ := ∅
  next := 2
  dataPointer := 0
  tmpPointer := 1
  data_lt := by decide
  tmp_lt := by decide
  distinct := by decide

/-- `*m_data_pointer`, the map served. -/
def data (r : Route) : RouteMap := r.heap r.dataPointer

/-- `*m_tmp_pointer`. -/
def tmp (r : Route) : RouteMap := r.heap r.tmpPointer

/-- The map behind a pointer changed. -/
def store (r : Route) (p : ℕ) (m : RouteMap) : Route :=
  { r with heap := Function.update r.heap p m }

/-- `route::build_maps`; `none` if the process does not get further. -/
def buildMaps (answer : QueryAnswer) (tables : Tables) (r : Route) : Option Route :=
  match answer with
  | .ok => some (r.store r.dataPointer (tables.routeData.foldl insertRow r.data))
  | _ => none

/-- `route::get_hosts`. -/
def getHosts (r : Route) (modid cmdid : Int32) : Finset UInt64 := r.data.get (routeKey modid cmdid)

/-- `route::load_version`. -/
def loadVersion (answer : QueryAnswer) (tables : Tables) (r : Route) : ℤ × Route :=
  match answer, tables.version with
  | .ok, some newVersion =>
    if newVersion = r.version then (0, r)
    else (1, { r with version := newVersion })
  | _, _ => (-1, r)

/-- `route::load_route_data`. -/
def loadRouteData (answer : QueryAnswer) (tables : Tables) (r : Route) : ℤ × Route :=
  let r := r.store r.tmpPointer ∅
  match answer with
  | .ok => (0, r.store r.tmpPointer (tables.routeData.foldl insertRow r.tmp))
  | _ => (-1, r)

/-- `route::swap`; `unique` is `m_data_pointer.unique()`. -/
def swap (unique : Bool) (r : Route) : Route :=
  if unique then
    { r with
      dataPointer := r.tmpPointer
      tmpPointer := r.dataPointer
      data_lt := r.tmp_lt
      tmp_lt := r.data_lt
      distinct := r.distinct.symm }
  else
    { r with
      heap := Function.update r.heap r.next r.data
      next := r.next + 1
      dataPointer := r.tmpPointer
      tmpPointer := r.next
      data_lt := Nat.lt_succ_of_lt r.tmp_lt
      tmp_lt := Nat.lt_succ_self _
      distinct := Nat.ne_of_lt r.tmp_lt }

/-- `version <= m_version`, the condition of the queries on `RouteChange`. -/
def covers (r : Route) (row : ChangeRow) : Bool := decide ((row.version.toNat : ℤ) ≤ r.version)

/-- The rows that `route::load_changes` reads; its list has their keys. -/
def loadChanges (answer : QueryAnswer) (db : Database) (r : Route) : List ChangeRow :=
  match answer with
  | .ok => db.routeChange.filter r.covers
  | _ => []

/-- `route::remove_changes`: the rows deleted, and the database left. -/
def removeChanges (answer : QueryAnswer) (removeAll : Bool) (db : Database) (r : Route) :
    List ChangeRow × Database :=
  let cond := fun row => removeAll || r.covers row
  match answer with
  | .ok => (db.routeChange.filter cond, db.deleteChanges cond)
  | _ => ([], db)

/-! ## The map served -/

@[simp] theorem data_store_data (r : Route) (m : RouteMap) : (r.store r.dataPointer m).data = m :=
  Function.update_self _ _ _

@[simp] theorem tmp_store_tmp (r : Route) (m : RouteMap) : (r.store r.tmpPointer m).tmp = m :=
  Function.update_self _ _ _

@[simp] theorem data_store_tmp (r : Route) (m : RouteMap) :
    (r.store r.tmpPointer m).data = r.data :=
  Function.update_of_ne r.distinct _ _

/-- `build_maps` at the start serves what the table holds. -/
theorem data_buildMaps (tables : Tables) :
    (new.buildMaps .ok tables).map data = some (routeMap tables.routeData) := by
  rw [buildMaps, Option.map_some, data_store_data]
  rfl

@[simp] theorem data_loadVersion (answer : QueryAnswer) (tables : Tables) (r : Route) :
    (r.loadVersion answer tables).2.data = r.data := by
  unfold loadVersion
  split
  · split_ifs <;> rfl
  · rfl

/-- A new version is the database's. -/
theorem loadVersion_new {answer : QueryAnswer} {tables : Tables} {r : Route}
    (h : (r.loadVersion answer tables).1 = 1) :
    tables.version = some (r.loadVersion answer tables).2.version := by
  unfold loadVersion at h ⊢
  split at h
  · rename_i hversion
    split_ifs at h ⊢
    · cases h
    · exact hversion
  · cases h

theorem loadVersion_not_new {answer : QueryAnswer} {tables : Tables} {r : Route}
    (h : (r.loadVersion answer tables).1 ≠ 1) : (r.loadVersion answer tables).2 = r := by
  unfold loadVersion at h ⊢
  split at h
  · split_ifs at h ⊢
    · rfl
    · exact absurd rfl h
  · rfl

/-- A version query that succeeds leaves the database's version recorded. -/
theorem version_loadVersion {tables : Tables} {version : ℤ} (h : tables.version = some version)
    (r : Route) : (r.loadVersion .ok tables).2.version = version := by
  unfold loadVersion
  rw [h]
  dsimp only
  split_ifs with hold
  · exact hold.symm
  · rfl

theorem loadRouteData_eq_zero {answer : QueryAnswer} {tables : Tables} {r : Route} :
    (r.loadRouteData answer tables).1 = 0 ↔ answer = .ok := by
  unfold loadRouteData
  cases answer <;> simp

/-- A load does not touch the map served. -/
@[simp] theorem data_loadRouteData (answer : QueryAnswer) (tables : Tables) (r : Route) :
    (r.loadRouteData answer tables).2.data = r.data := by
  unfold loadRouteData
  split
  · exact (data_store_tmp (r.store r.tmpPointer ∅) _).trans (data_store_tmp r ∅)
  · exact data_store_tmp r ∅

@[simp] theorem version_loadRouteData (answer : QueryAnswer) (tables : Tables) (r : Route) :
    (r.loadRouteData answer tables).2.version = r.version := by
  unfold loadRouteData
  split <;> rfl

/-- A load that succeeds leaves what the table holds, and nothing of an earlier load. -/
theorem tmp_loadRouteData (tables : Tables) (r : Route) :
    (r.loadRouteData .ok tables).2.tmp = routeMap tables.routeData := by
  rw [loadRouteData]
  refine (tmp_store_tmp (r.store r.tmpPointer ∅) _).trans ?_
  rw [tmp_store_tmp]
  rfl

/-- `swap` serves the map loaded. -/
@[simp] theorem data_swap (unique : Bool) (r : Route) : (r.swap unique).data = r.tmp := by
  unfold swap
  split_ifs
  · rfl
  · exact Function.update_of_ne r.tmp_lt.ne _ _

@[simp] theorem version_swap (unique : Bool) (r : Route) : (r.swap unique).version = r.version := by
  unfold swap
  split_ifs <;> rfl

/-- Only `RouteChange` loses rows. -/
@[simp] theorem tables_removeChanges (answer : QueryAnswer) (removeAll : Bool) (db : Database)
    (r : Route) : (r.removeChanges answer removeAll db).2.tables = db.tables := by
  unfold removeChanges
  cases answer <;> rfl

end Route

end Lars.Dns
