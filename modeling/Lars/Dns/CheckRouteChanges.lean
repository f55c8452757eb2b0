import Lars.Dns.Route
import Lars.Foundations.Run

/-!
# The check loop

`route::check_route_changes` (`lars_dns/src/dns_route.cc`) looks at the version in the database once
a second. If it has changed, the loop loads the routes, announces the changes up to the version to
the subscribers and deletes them; if not, it loads the routes every ten seconds.

An `Iteration` is what one pass of the loop meets: the transactions that writers commit before each
of its queries, how the queries end, and the time. `Server` is the state, with two records kept for
the statements only: the tables as they were before each transaction, and the changes announced.
-/

namespace Lars.Dns

open Machine

/-- What a pass of the loop meets. -/
structure Iteration where
  currentTime : ℤ
  beforeVersion : List Transaction := []
  versionAnswer : QueryAnswer := .ok
  beforeData : List Transaction := []
  dataAnswer : QueryAnswer := .ok
  unique : Bool := true
  beforeChanges : List Transaction := []
  changesAnswer : QueryAnswer := .ok
  beforeDelete : List Transaction := []
  deleteAnswer : QueryAnswer := .ok

/-- The state of the loop and of the database. -/
structure Server where
  db : Database
  route : Route
  lastLoadTime : ℤ
  past : List Tables
  announced : List ChangeRow

/-- What a pass shows: the list of changes handed to `send_task`, if one is, the rows of
`RouteChange` read into it, and the rows deleted. -/
structure Checked where
  published : Option (List UInt64) := none
  read : List ChangeRow := []
  deleted : List ChangeRow := []

/-- A row has been read into the list handed to `send_task`. -/
def Checked.Hands (o : Checked) (row : ChangeRow) : Prop :=
  row ∈ o.read ∧ ∃ keys, o.published = some keys ∧ changeKey row ∈ keys

namespace Server

/-- A transaction committed. -/
def commit (s : Server) (t : Transaction) : Server :=
  { s with db := s.db.commit t, past := s.past ++ [s.db.tables] }

/-- Transactions committed. -/
def commits (s : Server) (ts : List Transaction) : Server := ts.foldl commit s

/-- `RouteData` and `RouteVersion` at all moments. -/
def history (s : Server) : List Tables := s.past ++ [s.db.tables]

/-- `route::route` up to the check loop, transactions being committed between its two queries. -/
def construct (db : Database) (dataAnswer : QueryAnswer) (between : List Transaction)
    (versionAnswer : QueryAnswer) (time : ℤ) : Option Server := do
  let route ← Route.new.buildMaps dataAnswer db.tables
  let s := commits ⟨db, route, time, [], []⟩ between
  some { s with route := (s.route.loadVersion versionAnswer s.db.tables).2 }

/-- `remove_changes(true)` before the loop, after transactions. -/
def cleanUp (before : List Transaction) (answer : QueryAnswer) (s : Server) : Server :=
  let s := s.commits before
  { s with db := (s.route.removeChanges answer true s.db).2 }

/-- `load_version` in a pass. -/
def checkVersion (it : Iteration) (s : Server) : ℤ × Server :=
  let s := s.commits it.beforeVersion
  let (ret, route) := s.route.loadVersion it.versionAnswer s.db.tables
  (ret, { s with route := route })

/-- `load_route_data`, and `swap` if it succeeds. -/
def reload (it : Iteration) (s : Server) : Server :=
  let s := s.commits it.beforeData
  let (ret, route) := s.route.loadRouteData it.dataAnswer s.db.tables
  if ret = 0 then { s with route := route.swap it.unique, lastLoadTime := it.currentTime }
  else { s with route := route }

/-- `load_changes`, and the list handed to `send_task`. -/
def announce (it : Iteration) (s : Server) : List ChangeRow × Server :=
  let s := s.commits it.beforeChanges
  let read := s.route.loadChanges it.changesAnswer s.db
  (read, { s with announced := s.announced ++ read })

/-- `remove_changes(false)`. -/
def remove (it : Iteration) (s : Server) : List ChangeRow × Server :=
  let s := s.commits it.beforeDelete
  let (deleted, db) := s.route.removeChanges it.deleteAnswer false s.db
  (deleted, { s with db := db })

/-- A pass of the loop of `route::check_route_changes`. -/
def check (it : Iteration) (s : Server) : Checked × Server :=
  let (ret, s) := checkVersion it s
  if ret = 1 then
    let s := reload it s
    let (read, s) := announce it s
    let (deleted, s) := remove it s
    (⟨some (read.map changeKey), read, deleted⟩, s)
  else if it.currentTime - s.lastLoadTime ≥ 10 then ({}, reload it s)
  else ({}, s)

/-- The loop as a machine; it never stops. -/
def step (s : Server) (it : Iteration) : Except Empty (Checked × Server) := .ok (check it s)

/-- A pass that finds a new version. -/
theorem check_of_new {it : Iteration} {s : Server} (h : (checkVersion it s).1 = 1) :
    check it s =
      let loaded := reload it (checkVersion it s).2
      let announcing := announce it loaded
      let removing := remove it announcing.2
      (⟨some (announcing.1.map changeKey), announcing.1, removing.1⟩, removing.2) := by
  unfold check
  dsimp only
  rw [if_pos h]

/-- A pass that does not. -/
theorem check_of_not_new {it : Iteration} {s : Server} (h : (checkVersion it s).1 ≠ 1) :
    check it s = ({}, reload it (checkVersion it s).2) ∨
      check it s = ({}, (checkVersion it s).2) := by
  unfold check
  dsimp only
  rw [if_neg h]
  split_ifs
  · exact Or.inl rfl
  · exact Or.inr rfl

/-! ## Transactions -/

@[simp] theorem route_commits (s : Server) (ts : List Transaction) :
    (s.commits ts).route = s.route := by
  induction ts generalizing s with
  | nil => rfl
  | cons t ts ih => exact ih (s.commit t)

@[simp] theorem announced_commits (s : Server) (ts : List Transaction) :
    (s.commits ts).announced = s.announced := by
  induction ts generalizing s with
  | nil => rfl
  | cons t ts ih => exact ih (s.commit t)

theorem db_commits (s : Server) (ts : List Transaction) :
    (s.commits ts).db = ts.foldl Database.commit s.db := by
  induction ts generalizing s with
  | nil => rfl
  | cons t ts ih => exact ih (s.commit t)

/-- Transactions add moments. -/
theorem history_commits (s : Server) (ts : List Transaction) :
    ∃ later, (s.commits ts).history = s.history ++ later := by
  induction ts generalizing s with
  | nil => exact ⟨[], (List.append_nil _).symm⟩
  | cons t ts ih =>
    obtain ⟨later, h⟩ := ih (s.commit t)
    refine ⟨(s.db.commit t).tables :: later, h.trans ?_⟩
    simp [history, commit]

/-- What is new in `RouteChange` has been inserted. -/
theorem mem_routeChange_commits {s : Server} {ts : List Transaction} {row : ChangeRow}
    (h : row ∈ (s.commits ts).db.routeChange) :
    row ∈ s.db.routeChange ∨ ∃ t ∈ ts, ∃ c ∈ t.changes, row.version = c.2.2 := by
  induction ts generalizing s with
  | nil => exact Or.inl h
  | cons t ts ih =>
    rcases ih h with h | ⟨t', ht', hc⟩
    · rcases Database.mem_routeChange_commit h with h | hc
      · exact Or.inl h
      · exact Or.inr ⟨t, List.mem_cons_self, hc⟩
    · exact Or.inr ⟨t', List.mem_cons_of_mem _ ht', hc⟩

/-! ## What a load does -/

@[simp] theorem db_reload (it : Iteration) (s : Server) :
    (reload it s).db = (s.commits it.beforeData).db := by
  unfold reload
  dsimp only
  split_ifs <;> rfl

@[simp] theorem history_reload (it : Iteration) (s : Server) :
    (reload it s).history = (s.commits it.beforeData).history := by
  unfold reload
  dsimp only
  split_ifs <;> rfl

@[simp] theorem version_reload (it : Iteration) (s : Server) :
    (reload it s).route.version = s.route.version := by
  unfold reload
  dsimp only
  split_ifs <;> simp

/-- A load that succeeds serves what the table holds. -/
theorem data_reload_ok {it : Iteration} (h : it.dataAnswer = .ok) (s : Server) :
    (reload it s).route.data = routeMap (s.commits it.beforeData).db.tables.routeData := by
  unfold reload
  dsimp only
  rw [if_pos (Route.loadRouteData_eq_zero.mpr h), h, Route.data_swap, Route.tmp_loadRouteData]

/-- A load that fails leaves the map served. -/
theorem data_reload_failed {it : Iteration} (h : it.dataAnswer ≠ .ok) (s : Server) :
    (reload it s).route.data = s.route.data := by
  unfold reload
  dsimp only
  rw [if_neg fun h₀ => h (Route.loadRouteData_eq_zero.mp h₀), Route.data_loadRouteData,
    route_commits]

end Server

end Lars.Dns
