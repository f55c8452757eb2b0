import Lars.Dns.CheckRouteChanges
import Lars.Foundations.Decimal
import Lars.Reactor.ConfigFile

/-!
# What goes to MySQL and comes back

`route` (`lars_dns/src/dns_route.cc`) puts its queries together in `m_sql` with `snprintf`, and gets
rows of texts that it reads with `atoi` and `atol`. `Mysql` is what it relies on: what the queries
are answered with. The functions are here as they go through the texts.

* No query is cut, and none loses or changes a number on the way there or back: the check loop does
  through texts what it does on the tables (`passes_eq`).
-/

namespace Lars.Dns

open Machine Decimal Reactor

namespace Texts

/-! ## Numbers -/

/-- `atol`. -/
def atol (s : Str) : ℤ := strtol s

/-- `atoi`. -/
def atoi (s : Str) : Int32 := Int32.ofInt (strtol s)

theorem strtol_digits (v : UInt32) : strtol (digits v.toNat) = v.toNat := by
  have hlong : IsLong v.toNat := isLong_natCast (v.toNat_lt.trans (by decide))
  rw [← decimal_natCast, strtol_decimal, clampLong_eq hlong]

theorem atol_digits (v : UInt32) : atol (digits v.toNat) = v.toNat := strtol_digits v

theorem atoi_digits (v : UInt32) : atoi (digits v.toNat) = Dns.atoi v := by
  rw [atoi, strtol_digits, Int32.ofInt_eq_ofNat, Dns.atoi]
  exact Int32.toBitVec_inj.mp (by simp)

/-! ## Queries -/

/-- A row of a result, its columns as texts. -/
abbrev Row := List Str

def selectRoutes : List Piece := [.chars (text "SELECT * FROM RouteData;")]

def selectVersion : List Piece := [.chars (text "SELECT version from RouteVersion WHERE id = 1;")]

def selectChanges (version : ℤ) : List Piece :=
  [.chars (text "SELECT modid,cmdid FROM RouteChange WHERE version <= "), .number version,
    .chars (text ";")]

def deleteChanges (version : ℤ) : List Piece :=
  [.chars (text "DELETE FROM RouteChange WHERE version <= "), .number version, .chars (text ";")]

def deleteAll : List Piece := [.chars (text "DELETE FROM RouteChange;")]

/-- The row of a result for a row of `RouteData`; its first column is the id. -/
def IsRow (row : Row) (r : RouteRow) : Prop :=
  ∃ id, row = [id, digits r.modid.toNat, digits r.cmdid.toNat, digits r.serverip.toNat,
    digits r.serverport.toNat]

/-- What a query that succeeds gets, and what it does to the database. -/
structure Mysql where
  query : Str → Database → List Row × Database
  select_routes (db : Database) : ∃ rows, query (print selectRoutes) db = (rows, db) ∧
    List.Forall₂ IsRow rows db.tables.routeData
  select_version (db : Database) : query (print selectVersion) db =
    ((db.tables.routeVersion.map fun v => [digits v.toNat]).toList, db)
  select_changes (version : ℤ) (db : Database) : query (print (selectChanges version)) db =
    ((db.routeChange.filter fun row => decide ((row.version.toNat : ℤ) ≤ version)).map fun row =>
      [digits row.modid.toNat, digits row.cmdid.toNat], db)
  delete_changes (version : ℤ) (db : Database) : query (print (deleteChanges version)) db =
    ([], db.deleteChanges fun row => decide ((row.version.toNat : ℤ) ≤ version))
  delete_all (db : Database) : query (print deleteAll) db = ([], db.deleteChanges fun _ => true)

variable (mysql : Mysql)

/-! ## The functions of `route` -/

/-- A row put into a map. -/
def insertRow (m : RouteMap) (row : Row) : RouteMap :=
  let modid := atoi (row.getD 1 [])
  let cmdid := atoi (row.getD 2 [])
  let ip := (atoi (row.getD 3 [])).toUInt32
  let port := atoi (row.getD 4 [])
  m.emplace (routeKey modid cmdid) (hostValue ip port)

/-- `route::build_maps`; `none` if the process does not get further. -/
def buildMaps (answer : QueryAnswer) (db : Database) (r : Route) : Option Route :=
  let sql := snprintf 1000 selectRoutes
  match answer with
  | .ok => some (r.store r.dataPointer ((mysql.query sql db).1.foldl insertRow r.data))
  | _ => none

/-- `route::load_version`. -/
def loadVersion (answer : QueryAnswer) (db : Database) (r : Route) : ℤ × Route :=
  let sql := snprintf 1000 selectVersion
  match answer with
  | .ok =>
    match (mysql.query sql db).1 with
    | [] => (-1, r)
    | row :: _ =>
      let newVersion := atol (row.getD 0 [])
      if newVersion = r.version then (0, r) else (1, { r with version := newVersion })
  | _ => (-1, r)

/-- `route::load_route_data`. -/
def loadRouteData (answer : QueryAnswer) (db : Database) (r : Route) : ℤ × Route :=
  let r := r.store r.tmpPointer ∅
  let sql := snprintf 100 selectRoutes
  match answer with
  | .ok => (0, r.store r.tmpPointer ((mysql.query sql db).1.foldl insertRow r.tmp))
  | _ => (-1, r)

/-- `route::load_changes`: the keys put into the list. -/
def loadChanges (answer : QueryAnswer) (db : Database) (r : Route) : List UInt64 :=
  let sql := snprintf 1000 (selectChanges r.version)
  match answer with
  | .ok => (mysql.query sql db).1.map fun row =>
      routeKey (atoi (row.getD 0 [])) (atoi (row.getD 1 []))
  | _ => []

/-- `route::remove_changes`: the database left. -/
def removeChanges (answer : QueryAnswer) (removeAll : Bool) (db : Database) (r : Route) :
    Database :=
  let sql := snprintf 1000 (if removeAll = false then deleteChanges r.version else deleteAll)
  match answer with
  | .ok => (mysql.query sql db).2
  | _ => db

/-! ## Through texts as on tables -/

/-- A query without numbers is not cut. -/
theorem snprintf_chars {size : ℕ} {s : Str} (h : s.length < size) :
    snprintf size [.chars s] = print [.chars s] :=
  snprintf_eq (k := 0) (fun _ hz => nomatch hz) h

theorem snprintf_selectChanges {version : ℤ} (h : IsLong version) :
    snprintf 1000 (selectChanges version) = print (selectChanges version) :=
  snprintf_eq (List.forall_mem_singleton.mpr (length_decimal_long h))
    (by decide : Shape.size 20 ((selectChanges 0).map Piece.shape) < 1000)

theorem snprintf_deleteChanges {version : ℤ} (h : IsLong version) :
    snprintf 1000 (deleteChanges version) = print (deleteChanges version) :=
  snprintf_eq (List.forall_mem_singleton.mpr (length_decimal_long h))
    (by decide : Shape.size 20 ((deleteChanges 0).map Piece.shape) < 1000)

/-- The rows of `RouteData` get into a map. -/
theorem foldl_insertRow {rows : List Row} {rs : List RouteRow} (h : List.Forall₂ IsRow rows rs)
    (m : RouteMap) : rows.foldl insertRow m = rs.foldl Dns.insertRow m := by
  induction h generalizing m with
  | nil => rfl
  | @cons row r rows rs hrow _ ih =>
    obtain ⟨id, rfl⟩ := hrow
    rw [List.foldl_cons, List.foldl_cons, ih]
    simp only [insertRow, Dns.insertRow, List.getD_cons_succ, List.getD_cons_zero, atoi_digits]

variable {mysql}

theorem buildMaps_eq (answer : QueryAnswer) (db : Database) (r : Route) :
    buildMaps mysql answer db r = r.buildMaps answer db.tables := by
  obtain ⟨rows, hquery, hrows⟩ := mysql.select_routes db
  have hsql : snprintf 1000 selectRoutes = print selectRoutes := snprintf_chars (by decide)
  unfold buildMaps
  dsimp only
  rw [hsql, hquery]
  cases answer with
  | ok => exact congrArg (fun m => some (r.store r.dataPointer m)) (foldl_insertRow hrows _)
  | queryError | storeError => rfl

theorem loadVersion_eq (answer : QueryAnswer) (db : Database) (r : Route) :
    loadVersion mysql answer db r = r.loadVersion answer db.tables := by
  have hsql : snprintf 1000 selectVersion = print selectVersion := snprintf_chars (by decide)
  unfold loadVersion Route.loadVersion Tables.version
  dsimp only
  rw [hsql, mysql.select_version]
  cases answer with
  | ok =>
    cases db.tables.routeVersion with
    | none => rfl
    | some v =>
      simp only [Option.map_some, Option.toList_some, List.getD_cons_zero, atol_digits]
  | queryError | storeError => rfl

theorem loadRouteData_eq (answer : QueryAnswer) (db : Database) (r : Route) :
    loadRouteData mysql answer db r = r.loadRouteData answer db.tables := by
  obtain ⟨rows, hquery, hrows⟩ := mysql.select_routes db
  have hsql : snprintf 100 selectRoutes = print selectRoutes := snprintf_chars (by decide)
  unfold loadRouteData Route.loadRouteData
  dsimp only
  rw [hsql, hquery]
  cases answer with
  | ok =>
    dsimp only
    rw [foldl_insertRow hrows]
  | queryError | storeError => rfl

theorem loadChanges_eq (answer : QueryAnswer) (db : Database) {r : Route} (h : IsLong r.version) :
    loadChanges mysql answer db r = (r.loadChanges answer db).map changeKey := by
  unfold loadChanges Route.loadChanges
  dsimp only
  rw [snprintf_selectChanges h, mysql.select_changes]
  cases answer with
  | ok =>
    rw [List.map_map]
    refine List.map_congr_left fun row _ => ?_
    simp only [Function.comp, List.getD_cons_zero, List.getD_cons_succ, atoi_digits, changeKey]
  | queryError | storeError => rfl

theorem removeChanges_eq (answer : QueryAnswer) (removeAll : Bool) (db : Database) {r : Route}
    (h : IsLong r.version) :
    removeChanges mysql answer removeAll db r = (r.removeChanges answer removeAll db).2 := by
  have hall : snprintf 1000 deleteAll = print deleteAll := snprintf_chars (by decide)
  unfold removeChanges Route.removeChanges
  cases answer with
  | ok =>
    cases removeAll with
    | true =>
      dsimp only
      rw [if_neg (by decide), hall, mysql.delete_all]
      simp only [Bool.true_or]
    | false =>
      dsimp only
      rw [if_pos rfl, snprintf_deleteChanges h, mysql.delete_changes]
      simp only [Bool.false_or]
      rfl
  | queryError | storeError => rfl

/-! ## The check loop -/

/-- The check loop and the database, without the records kept for statements. -/
structure SqlServer where
  db : Database
  route : Route
  lastLoadTime : ℤ

/-- A server without its records. -/
def sql (s : Server) : SqlServer := ⟨s.db, s.route, s.lastLoadTime⟩

namespace SqlServer

/-- Transactions committed. -/
def commits (s : SqlServer) (ts : List Transaction) : SqlServer :=
  { s with db := ts.foldl Database.commit s.db }

variable (mysql)

/-- `route::route` up to the check loop. -/
def construct (db : Database) (dataAnswer : QueryAnswer) (between : List Transaction)
    (versionAnswer : QueryAnswer) (time : ℤ) : Option SqlServer := do
  let route ← buildMaps mysql dataAnswer db Route.new
  let s := commits ⟨db, route, time⟩ between
  some { s with route := (loadVersion mysql versionAnswer s.db s.route).2 }

/-- `remove_changes(true)` before the loop, after transactions. -/
def cleanUp (before : List Transaction) (answer : QueryAnswer) (s : SqlServer) : SqlServer :=
  let s := s.commits before
  { s with db := removeChanges mysql answer true s.db s.route }

/-- `load_version` in a pass. -/
def checkVersion (it : Iteration) (s : SqlServer) : ℤ × SqlServer :=
  let s := s.commits it.beforeVersion
  let (ret, route) := loadVersion mysql it.versionAnswer s.db s.route
  (ret, { s with route := route })

/-- `load_route_data`, and `swap` if it succeeds. -/
def reload (it : Iteration) (s : SqlServer) : SqlServer :=
  let s := s.commits it.beforeData
  let (ret, route) := loadRouteData mysql it.dataAnswer s.db s.route
  if ret = 0 then { s with route := route.swap it.unique, lastLoadTime := it.currentTime }
  else { s with route := route }

/-- `load_changes`: the list handed to `send_task`. -/
def announce (it : Iteration) (s : SqlServer) : List UInt64 × SqlServer :=
  let s := s.commits it.beforeChanges
  (loadChanges mysql it.changesAnswer s.db s.route, s)

/-- `remove_changes(false)`. -/
def remove (it : Iteration) (s : SqlServer) : SqlServer :=
  let s := s.commits it.beforeDelete
  { s with db := removeChanges mysql it.deleteAnswer false s.db s.route }

/-- A pass of the loop of `route::check_route_changes`, with the list handed to `send_task`. -/
def check (it : Iteration) (s : SqlServer) : Option (List UInt64) × SqlServer :=
  let (ret, s) := checkVersion mysql it s
  if ret = 1 then
    let s := reload mysql it s
    let (changes, s) := announce mysql it s
    (some changes, remove mysql it s)
  else if it.currentTime - s.lastLoadTime ≥ 10 then (none, reload mysql it s)
  else (none, s)

/-- The loop as a machine. -/
def step (s : SqlServer) (it : Iteration) : Except Empty (Option (List UInt64) × SqlServer) :=
  .ok (check mysql it s)

end SqlServer

open SqlServer (commits)

theorem sql_commits (s : Server) (ts : List Transaction) :
    sql (s.commits ts) = (sql s).commits ts := by
  induction ts generalizing s with
  | nil => rfl
  | cons t ts ih => exact ih (s.commit t)

theorem sql_construct (db : Database) (dataAnswer : QueryAnswer) (between : List Transaction)
    (versionAnswer : QueryAnswer) (time : ℤ) :
    SqlServer.construct mysql db dataAnswer between versionAnswer time =
      (Server.construct db dataAnswer between versionAnswer time).map sql := by
  unfold SqlServer.construct Server.construct
  rw [buildMaps_eq]
  cases Route.new.buildMaps dataAnswer db.tables with
  | none => rfl
  | some route =>
    have hcommits := sql_commits ⟨db, route, time, [], []⟩ between
    simp only [Option.bind_eq_bind, Option.bind_some, Option.map_some, loadVersion_eq]
    exact congrArg (fun t : SqlServer => some
      { t with route := (t.route.loadVersion versionAnswer t.db.tables).2 }) hcommits.symm

theorem sql_checkVersion (it : Iteration) (s : Server) :
    SqlServer.checkVersion mysql it (sql s) =
      ((s.checkVersion it).1, sql (s.checkVersion it).2) := by
  unfold SqlServer.checkVersion Server.checkVersion
  rw [← sql_commits]
  dsimp only [sql]
  rw [loadVersion_eq]

theorem sql_reload (it : Iteration) (s : Server) :
    SqlServer.reload mysql it (sql s) = sql (s.reload it) := by
  unfold SqlServer.reload Server.reload
  rw [← sql_commits]
  dsimp only [sql]
  rw [loadRouteData_eq]
  split_ifs <;> rfl

theorem sql_announce (it : Iteration) {s : Server} (h : IsLong s.route.version) :
    SqlServer.announce mysql it (sql s) =
      ((s.announce it).1.map changeKey, sql (s.announce it).2) := by
  have hlong : IsLong (s.commits it.beforeChanges).route.version := by rwa [Server.route_commits]
  unfold SqlServer.announce Server.announce
  rw [← sql_commits]
  dsimp only [sql]
  rw [loadChanges_eq _ _ hlong]

theorem sql_remove (it : Iteration) {s : Server} (h : IsLong s.route.version) :
    SqlServer.remove mysql it (sql s) = sql (s.remove it).2 := by
  have hlong : IsLong (s.commits it.beforeDelete).route.version := by rwa [Server.route_commits]
  unfold SqlServer.remove Server.remove
  rw [← sql_commits]
  dsimp only [sql]
  rw [removeChanges_eq _ _ _ hlong]

/-- A version that has been read is a `long`. -/
theorem isLong_loadVersion {r : Route} (h : IsLong r.version) (answer : QueryAnswer)
    (tables : Tables) : IsLong (r.loadVersion answer tables).2.version := by
  unfold Route.loadVersion Tables.version
  cases answer with
  | ok =>
    cases tables.routeVersion with
    | none => exact h
    | some v =>
      have hlt := v.toNat_lt
      dsimp only [Option.map_some]
      split_ifs
      · exact h
      · exact ⟨by dsimp only; omega, by dsimp only; omega⟩
  | queryError | storeError => exact h

theorem isLong_construct {db : Database} {dataAnswer versionAnswer : QueryAnswer}
    {between : List Transaction} {time : ℤ} {s : Server}
    (h : Server.construct db dataAnswer between versionAnswer time = some s) :
    IsLong s.route.version := by
  obtain ⟨r, hbuild, hs⟩ := Option.bind_eq_some_iff.mp h
  have hversion : r.version = 0 := by
    cases dataAnswer with
    | ok =>
      cases hbuild
      rfl
    | queryError | storeError => cases hbuild
  cases hs
  refine isLong_loadVersion ?_ _ _
  rw [Server.route_commits, hversion]
  exact ⟨by decide, by decide⟩

theorem isLong_checkVersion {s : Server} (h : IsLong s.route.version) (it : Iteration) :
    IsLong (s.checkVersion it).2.route.version := by
  refine isLong_loadVersion ?_ _ _
  rwa [Server.route_commits]

theorem sql_cleanUp {s : Server} (h : IsLong s.route.version) (before : List Transaction)
    (answer : QueryAnswer) :
    SqlServer.cleanUp mysql before answer (sql s) = sql (s.cleanUp before answer) := by
  have hlong : IsLong (s.commits before).route.version := by rwa [Server.route_commits]
  unfold SqlServer.cleanUp Server.cleanUp
  rw [← sql_commits]
  dsimp only [sql]
  rw [removeChanges_eq _ _ _ hlong]

/-- **A pass** through texts is a pass on tables. -/
theorem sql_check {s : Server} (h : IsLong s.route.version) (it : Iteration) :
    SqlServer.check mysql it (sql s) = ((s.check it).1.published, sql (s.check it).2) ∧
      IsLong (s.check it).2.route.version := by
  have hlong := isLong_checkVersion h it
  have hloaded : IsLong ((s.checkVersion it).2.reload it).route.version := by
    rwa [Server.version_reload]
  have hannounced : IsLong (((s.checkVersion it).2.reload it).announce it).2.route.version := by
    change IsLong (((s.checkVersion it).2.reload it).commits it.beforeChanges).route.version
    rwa [Server.route_commits]
  unfold SqlServer.check
  rw [sql_checkVersion]
  dsimp only
  by_cases hnew : (s.checkVersion it).1 = 1
  · rw [Server.check_of_new hnew, if_pos hnew, sql_reload, sql_announce it hloaded]
    refine ⟨?_, ?_⟩
    · dsimp only
      rw [sql_remove it hannounced]
    · change IsLong (Server.commits _ it.beforeDelete).route.version
      rwa [Server.route_commits]
  · unfold Server.check
    dsimp only
    rw [if_neg hnew, if_neg hnew, sql_reload]
    change (if it.currentTime - (s.checkVersion it).2.lastLoadTime ≥ 10 then _ else _) = _ ∧ _
    split_ifs
    · exact ⟨rfl, hloaded⟩
    · exact ⟨rfl, hlong⟩

/-- **Through texts as on tables.** The constructor, the clean-up and every run of the check loop do
with the texts of queries and rows what they do on the tables: they announce the same lists of
changes, and leave the same database and the same routes. -/
theorem passes_eq (mysql : Mysql) (db : Database) (dataAnswer : QueryAnswer)
    (between : List Transaction) (versionAnswer : QueryAnswer) (time : ℤ)
    (before : List Transaction) (cleanAnswer : QueryAnswer) (its : List Iteration) :
    SqlServer.construct mysql db dataAnswer between versionAnswer time =
        (Server.construct db dataAnswer between versionAnswer time).map sql ∧
      ∀ s ∈ Server.construct db dataAnswer between versionAnswer time,
        ∃ outs s', run Server.step (s.cleanUp before cleanAnswer) its = .ok (outs, s') ∧
          run (SqlServer.step mysql) (SqlServer.cleanUp mysql before cleanAnswer (sql s)) its =
            .ok (outs.map Checked.published, sql s') := by
  have hrun : ∀ (its : List Iteration) (s : Server), IsLong s.route.version →
      ∃ outs s', run Server.step s its = .ok (outs, s') ∧
        run (SqlServer.step mysql) (sql s) its = .ok (outs.map Checked.published, sql s') := by
    intro its
    induction its with
    | nil => exact fun s _ => ⟨[], s, rfl, rfl⟩
    | cons it its ih =>
      intro s h
      obtain ⟨hcheck, hlong⟩ : SqlServer.check mysql it (sql s) = _ ∧ _ := sql_check h it
      obtain ⟨outs, s', hrun, hsql⟩ := ih (s.check it).2 hlong
      refine ⟨(s.check it).1 :: outs, s', run_cons_eq_ok.mpr ⟨_, _, outs, rfl, hrun, rfl⟩,
        run_cons_eq_ok.mpr ⟨_, _, _, ?_, hsql, rfl⟩⟩
      rw [SqlServer.step, hcheck]
  refine ⟨sql_construct db dataAnswer between versionAnswer time, fun s hs => ?_⟩
  have hlong := isLong_construct hs
  rw [sql_cleanUp hlong]
  refine hrun its _ ?_
  change IsLong (s.commits before).route.version
  rwa [Server.route_commits]

/-- Queries read off their texts, and answered. -/
def readQuery (sql : Str) (db : Database) : List Row × Database :=
  if sql = print selectRoutes then
    (db.tables.routeData.map fun r => [[], digits r.modid.toNat, digits r.cmdid.toNat,
      digits r.serverip.toNat, digits r.serverport.toNat], db)
  else if sql = print selectVersion then
    ((db.tables.routeVersion.map fun v => [digits v.toNat]).toList, db)
  else if sql = print deleteAll then ([], db.deleteChanges fun _ => true)
  else
    match scan ((selectChanges 0).map Piece.shape) sql with
    | some [version] =>
      ((db.routeChange.filter fun row => decide ((row.version.toNat : ℤ) ≤ version)).map fun row =>
        [digits row.modid.toNat, digits row.cmdid.toNat], db)
    | _ =>
      match scan ((deleteChanges 0).map Piece.shape) sql with
      | some [version] =>
        ([], db.deleteChanges fun row => decide ((row.version.toNat : ℤ) ≤ version))
      | _ => ([], db)

/-- A database that reads the queries. -/
def readingMysql : Mysql where
  query := readQuery
  select_routes db := by
    refine ⟨_, if_pos rfl, ?_⟩
    rw [List.forall₂_map_left_iff, List.forall₂_same]
    exact fun r _ => ⟨[], rfl⟩
  select_version db := by
    rw [readQuery, if_neg (by decide), if_pos rfl]
  select_changes version db := by
    have htake : (print (selectChanges version)).take 10 = text "SELECT mod" := rfl
    have hne : ∀ {sql : Str}, sql.take 10 ≠ text "SELECT mod" →
        print (selectChanges version) ≠ sql := fun h heq => h (heq ▸ htake)
    rw [readQuery, if_neg (hne (by decide)), if_neg (hne (by decide)), if_neg (hne (by decide))]
    have hscan : scan ((selectChanges 0).map Piece.shape) (print (selectChanges version)) =
      some [version] := scan_print (rfl : Shape.separated ((selectChanges version).map _) = true)
    rw [hscan]
  delete_changes version db := by
    have htake : (print (deleteChanges version)).take 25 = text "DELETE FROM RouteChange W" := rfl
    have hne : ∀ {sql : Str}, sql.take 25 ≠ text "DELETE FROM RouteChange W" →
        print (deleteChanges version) ≠ sql := fun h heq => h (heq ▸ htake)
    rw [readQuery, if_neg (hne (by decide)), if_neg (hne (by decide)), if_neg (hne (by decide))]
    have hscan : scan ((deleteChanges 0).map Piece.shape) (print (deleteChanges version)) =
      some [version] := scan_print (rfl : Shape.separated ((deleteChanges version).map _) = true)
    have hselect : scan ((selectChanges 0).map Piece.shape)
      (print (deleteChanges version)) = none := rfl
    rw [hscan, hselect]
  delete_all db := by
    rw [readQuery, if_neg (by decide), if_neg (by decide), if_pos rfl]

/-- A database without changes, and a pass before which one is made. -/
def unchanged : Database := ⟨⟨[⟨1, 2, 5, 80⟩], some 0⟩, [], 0, nofun, List.nodup_nil⟩

def changing : Iteration :=
  { currentTime := 1, beforeVersion := [{ routeVersion := some 1, changes := [(1, 2, 1)] }] }

theorem passes_eq_once : ∃ s ∈ Server.construct unchanged .ok [] .ok 0, ∃ outs s',
    run Server.step (s.cleanUp [] .ok) [changing] = .ok (outs, s') ∧
      run (SqlServer.step readingMysql) (SqlServer.cleanUp readingMysql [] .ok (sql s)) [changing] =
        .ok (outs.map Checked.published, sql s') ∧
      outs.map Checked.published = [some [routeKey 1 2]] := by
  have hs : Server.construct unchanged .ok [] .ok 0 = some _ := rfl
  obtain ⟨outs, s', hrun, hsql⟩ :=
    (passes_eq readingMysql unchanged .ok [] .ok 0 [] .ok [changing]).2 _ hs
  refine ⟨_, hs, outs, s', hrun, hsql, ?_⟩
  cases hrun
  decide

end Texts

end Lars.Dns
