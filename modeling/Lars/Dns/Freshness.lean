import Lars.Dns.CheckRouteChanges

/-!
# Freshness of the routes served

The routes served should not be older than the version recorded, `m_version`: they should be those
of a moment at which `RouteVersion` had already taken that value (`Fresh`). Two things break this:

* the constructor reads `RouteData` before `RouteVersion`, and a transaction may come in between;
* the check loop records a new version before it loads the routes, and goes on if the load fails.

`fresh_of_run` says that nothing else does.
-/

namespace Lars.Dns

open Machine

/-- The moments of a history from the one on at which `RouteVersion` took a value. -/
def since (history : List Tables) (version : ℤ) : List Tables :=
  history.dropWhile fun tables => decide (tables.version ≠ some version)

theorem since_append {history : List Tables} {version : ℤ} (h : since history version ≠ [])
    (later : List Tables) : since (history ++ later) version = since history version ++ later := by
  have hempty : (since history version).isEmpty = false := by simpa using h
  unfold since at hempty ⊢
  rw [List.dropWhile_append, hempty, if_neg Bool.false_ne_true]

/-- The last moment is one of those since, if there are any. -/
theorem mem_since_last {past : List Tables} {now : Tables} {version : ℤ}
    (h : since (past ++ [now]) version ≠ []) : now ∈ since (past ++ [now]) version := by
  unfold since at h ⊢
  rw [List.dropWhile_append] at h ⊢
  split_ifs at h ⊢ with hpast
  · rw [List.dropWhile_cons] at h ⊢
    split_ifs at h ⊢ with hnow
    · exact absurd rfl h
    · exact List.mem_cons_self
  · exact List.mem_append_right _ List.mem_cons_self

theorem since_ne_nil {past : List Tables} {now : Tables} {version : ℤ}
    (h : now.version = some version) : since (past ++ [now]) version ≠ [] := by
  unfold since
  rw [List.dropWhile_append]
  split_ifs with hpast
  · simp [h]
  · simp

namespace Server

/-- The version recorded has been that of the database. -/
def Recorded (s : Server) : Prop := since s.history s.route.version ≠ []

/-- **Fresh routes**: what is served is what `RouteData` was at a moment at which `RouteVersion` had
taken the value recorded. -/
def Fresh (s : Server) : Prop :=
  ∃ tables ∈ since s.history s.route.version, routeMap tables.routeData = s.route.data

theorem Fresh.recorded {s : Server} (h : Fresh s) : Recorded s := by
  obtain ⟨tables, hmem, -⟩ := h
  exact List.ne_nil_of_mem hmem

/-- Routes that are those of the moment are fresh. -/
theorem Recorded.fresh {s : Server} (h : Recorded s)
    (hdata : routeMap s.db.tables.routeData = s.route.data) : Fresh s :=
  ⟨_, mem_since_last h, hdata⟩

/-! ## The parts of a pass -/

theorem Recorded.commits {s : Server} (h : Recorded s) (ts : List Transaction) :
    Recorded (s.commits ts) := by
  obtain ⟨later, hlater⟩ := history_commits s ts
  rw [Recorded, hlater, route_commits, since_append h]
  exact List.append_ne_nil_of_left_ne_nil h later

theorem Fresh.commits {s : Server} (h : Fresh s) (ts : List Transaction) :
    Fresh (s.commits ts) := by
  obtain ⟨later, hlater⟩ := history_commits s ts
  obtain ⟨tables, hmem, hdata⟩ := h
  refine ⟨tables, ?_, by rw [route_commits, hdata]⟩
  rw [hlater, route_commits, since_append (List.ne_nil_of_mem hmem)]
  exact List.mem_append_left _ hmem

/-- A load that succeeds makes the routes fresh. -/
theorem Recorded.reload {s : Server} (h : Recorded s) {it : Iteration} (hit : it.dataAnswer = .ok) :
    Fresh (reload it s) := by
  have hs := h.commits it.beforeData
  refine Recorded.fresh ?_ ?_
  · rw [Recorded, history_reload, version_reload]
    rwa [Recorded, route_commits] at hs
  · rw [data_reload_ok hit, db_reload]

/-- A load that fails leaves them as they are. -/
theorem Fresh.reload {s : Server} (h : Fresh s) (it : Iteration) : Fresh (reload it s) := by
  by_cases hit : it.dataAnswer = .ok
  · exact h.recorded.reload hit
  · obtain ⟨tables, hmem, hdata⟩ := h.commits it.beforeData
    refine ⟨tables, ?_, ?_⟩
    · rwa [history_reload, version_reload, ← route_commits s it.beforeData]
    · rw [hdata, data_reload_failed hit, route_commits]

theorem Fresh.announce {s : Server} (h : Fresh s) (it : Iteration) : Fresh (announce it s).2 :=
  h.commits it.beforeChanges

/-- Deletions from `RouteChange` are no moments. -/
theorem Fresh.remove {s : Server} (h : Fresh s) (it : Iteration) : Fresh (remove it s).2 := by
  have htables : (Server.remove it s).2.db.tables = (s.commits it.beforeDelete).db.tables :=
    Route.tables_removeChanges _ _ _ _
  obtain ⟨tables, hmem, hdata⟩ := h.commits it.beforeDelete
  refine ⟨tables, ?_, hdata⟩
  rw [history, htables]
  exact hmem

/-- A new version is the database's. -/
theorem recorded_of_new {it : Iteration} {s : Server} (h : (checkVersion it s).1 = 1) :
    Recorded (checkVersion it s).2 := since_ne_nil (Route.loadVersion_new h)

/-- A pass that does not find a new version leaves the one recorded. -/
theorem Fresh.checkVersion {s : Server} (h : Fresh s) {it : Iteration}
    (hit : (checkVersion it s).1 ≠ 1) : Fresh (checkVersion it s).2 := by
  have hroute : (Server.checkVersion it s).2.route = (s.commits it.beforeVersion).route :=
    Route.loadVersion_not_new hit
  obtain ⟨tables, hmem, hdata⟩ := h.commits it.beforeVersion
  refine ⟨tables, ?_, by rw [hroute, hdata]⟩
  rw [hroute]
  exact hmem

/-! ## Runs -/

/-- A pass that keeps the routes fresh: if it finds a new version, then it loads the routes, or
finds them in the table as they are served. -/
def Loads (s : Server) (it : Iteration) : Prop :=
  (checkVersion it s).1 = 1 →
    it.dataAnswer = .ok ∨
      routeMap (checkVersion it s).2.db.tables.routeData = (checkVersion it s).2.route.data

/-- **A pass of the loop** that meets the condition keeps the routes fresh. -/
theorem Fresh.check {s : Server} (h : Fresh s) {it : Iteration} (hit : Loads s it) :
    Fresh (check it s).2 := by
  by_cases hnew : (Server.checkVersion it s).1 = 1
  · rw [check_of_new hnew]
    refine Fresh.remove (Fresh.announce ?_ it) it
    rcases hit hnew with hdata | hdata
    · exact (recorded_of_new hnew).reload hdata
    · exact ((recorded_of_new hnew).fresh hdata).reload it
  · have hs := h.checkVersion hnew
    rcases check_of_not_new hnew with hc | hc
    · rw [hc]
      exact hs.reload it
    · rw [hc]
      exact hs

/-- The constructor leaves fresh routes if no transaction between its queries changes them. -/
theorem fresh_construct {db : Database} {between : List Transaction} (time : ℤ)
    (hversion : db.tables.routeVersion.isSome)
    (hbetween : routeMap (between.foldl Database.commit db).tables.routeData =
      routeMap db.tables.routeData) :
    ∃ s, construct db .ok between .ok time = some s ∧ Fresh s := by
  obtain ⟨route, hbuild, hdata⟩ := Option.map_eq_some_iff.mp (Route.data_buildMaps db.tables)
  refine ⟨_, by rw [construct, hbuild]; rfl, ?_⟩
  set s := commits ⟨db, route, time, [], []⟩ between with hs
  have hdb : s.db = between.foldl Database.commit db := db_commits _ _
  obtain ⟨v, hv⟩ := Option.isSome_iff_exists.mp (Database.version_commits hversion between)
  have hv : s.db.tables.version = some (v.toNat : ℤ) := by rw [hdb, Tables.version, hv]; rfl
  refine Recorded.fresh (since_ne_nil (hv.trans ?_)) ?_
  · exact congrArg some (Route.version_loadVersion hv s.route).symm
  · rw [Route.data_loadVersion, hs, route_commits, hdata, ← hbetween, ← hdb]

/-- **The routes served are fresh** after construction and after every pass of every run that meets
the conditions. -/
theorem fresh_of_run {db : Database} {between : List Transaction} (time : ℤ)
    (hversion : db.tables.routeVersion.isSome)
    (hbetween : routeMap (between.foldl Database.commit db).tables.routeData =
      routeMap db.tables.routeData) :
    ∃ s, construct db .ok between .ok time = some s ∧ Fresh s ∧
      ∀ its, Along step Loads s its →
        Along step (fun s it => ∀ o s', step s it = .ok (o, s') → Fresh s') s its := by
  obtain ⟨s, hs, hfresh⟩ := fresh_construct time hversion hbetween
  refine ⟨s, hs, hfresh, fun its hits => ?_⟩
  refine hits.imp (P := Fresh) (fun s it h hit => ?_) hfresh
  have hcheck : ∀ o s', step s it = .ok (o, s') → Fresh s' := by
    intro o s' hstep
    have hs' : Server.check it s = (o, s') := Except.ok.inj hstep
    have hkeep := h.check hit
    rwa [hs'] at hkeep
  exact ⟨hcheck, hcheck⟩

section Example

/-- A database with a version and no routes. -/
def noRoutes : Database where
  tables := ⟨[], some 1⟩
  routeChange := []
  autoIncrement := 0
  id_lt := by simp
  nodup := by simp

/-- The route comes while the loop runs, after a load that has failed. -/
theorem fresh_of_run_first : ∃ s, construct noRoutes .ok [] .ok 0 = some s ∧ Fresh s ∧
    Along step (fun s it => ∀ o s', step s it = .ok (o, s') → Fresh s') s
      [{ currentTime := 11, dataAnswer := .queryError },
        { currentTime := 12
          beforeVersion :=
            [{ routeData := some [⟨1, 1, 0x7f000001, 80⟩], routeVersion := some 2 }] }] := by
  obtain ⟨s, hs, hfresh, hrun⟩ := fresh_of_run 0 (rfl : noRoutes.tables.routeVersion.isSome = true)
    (rfl : routeMap (List.foldl Database.commit noRoutes []).tables.routeData = _)
  refine ⟨s, hs, hfresh, hrun _ (along_cons ?_ (along_cons ?_ (along_nil _ _)))⟩
  · intro hnew
    cases hs
    exact absurd hnew (by decide)
  · exact fun _ => Or.inl rfl

/-- A route that comes between the two queries of the constructor is not served, though its version
is recorded; nor is one whose load fails in the pass that finds the version. -/
theorem not_fresh_of_run :
    (¬ ∀ (db : Database) (rows : List RouteRow) (v v' : UInt32) (time : ℤ),
      db.tables.routeVersion = some v → v < v' →
      ∃ s, construct db .ok [{ routeData := some rows, routeVersion := some v' }] .ok time =
          some s ∧ Fresh s) ∧
    ¬ ∀ (db : Database) (rows : List RouteRow) (v v' : UInt32) (time : ℤ),
      db.tables.routeVersion = some v → v < v' →
      ∃ s, construct db .ok [] .ok time = some s ∧
        Fresh (check
          { currentTime := time + 1
            beforeVersion := [{ routeData := some rows, routeVersion := some v' }]
            dataAnswer := .queryError } s).2 := by
  have hne : routeMap [⟨1, 1, 0x7f000001, 80⟩] ≠ ∅ := by
    intro h
    have hget := congrArg (SetMap.get · 0x100000001) h
    revert hget
    decide
  refine ⟨fun hall => ?_, fun hall => ?_⟩
  · obtain ⟨s, hs, tables, hmem, hdata⟩ :=
      hall noRoutes [⟨1, 1, 0x7f000001, 80⟩] 1 2 0 rfl (by decide)
    cases hs
    have hmem : tables ∈ [(⟨[⟨1, 1, 0x7f000001, 80⟩], some 2⟩ : Tables)] := hmem
    rw [List.mem_singleton.mp hmem] at hdata
    exact hne hdata
  · obtain ⟨s, hs, tables, hmem, hdata⟩ :=
      hall noRoutes [⟨1, 1, 0x7f000001, 80⟩] 1 2 0 rfl (by decide)
    cases hs
    have hmem : tables ∈ [(⟨[⟨1, 1, 0x7f000001, 80⟩], some 2⟩ : Tables)] := hmem
    rw [List.mem_singleton.mp hmem] at hdata
    exact hne hdata

end Example

end Server

end Lars.Dns
