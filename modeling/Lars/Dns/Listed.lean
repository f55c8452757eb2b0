import Lars.Dns.CheckRouteChanges

/-!
# Changes that are listed

Whoever changes the hosts of a key should put a row for it into `RouteChange`, with a version newer
than the one that `RouteVersion` had and not newer than the one it gets (`Transaction.Lists`). The
parts of a pass of the check loop then leave every change that they have not read newer than the
version recorded, so that a later pass finds it.

* `Proceeds`: what the parts of a pass do that record no version;
* `Waits.announce`: `load_changes` reads what waits, up to the version recorded;
* `ready_cleanUp`: when the server that the clean-up leaves is ready for listed changes.
-/

namespace Lars.Dns

namespace Database

theorem isPrefix_foldl_insertChange (cs : List (UInt32 × UInt32 × UInt64)) (db : Database) :
    db.routeChange <+: (cs.foldl (fun db c => db.insertChange c.1 c.2.1 c.2.2) db).routeChange := by
  induction cs generalizing db with
  | nil => exact List.prefix_rfl
  | cons c cs ih =>
    have hnext : db.routeChange <+: (db.insertChange c.1 c.2.1 c.2.2).routeChange :=
      List.prefix_append _ _
    exact hnext.trans (ih _)

/-- Transactions only add rows to `RouteChange`. -/
theorem routeChange_subset_commit (db : Database) (t : Transaction) :
    db.routeChange ⊆ (db.commit t).routeChange := by
  have hprefix := isPrefix_foldl_insertChange t.changes { db with tables := {
    routeData := t.routeData.getD db.tables.routeData
    routeVersion := t.routeVersion.or db.tables.routeVersion } }
  exact hprefix.subset

/-- The changes of a transaction are rows after it. -/
theorem exists_row_of_mem_changes {t : Transaction} {c : UInt32 × UInt32 × UInt64}
    (h : c ∈ t.changes) (db : Database) :
    ∃ row ∈ (db.commit t).routeChange, row.modid = c.1 ∧ row.cmdid = c.2.1 ∧
      row.version = c.2.2 := by
  have hinsert : ∀ (cs : List (UInt32 × UInt32 × UInt64)) (db : Database), c ∈ cs →
      ∃ row ∈ (cs.foldl (fun db c => db.insertChange c.1 c.2.1 c.2.2) db).routeChange,
        row.modid = c.1 ∧ row.cmdid = c.2.1 ∧ row.version = c.2.2 := by
    intro cs
    induction cs with
    | nil => exact fun _ h => absurd h List.not_mem_nil
    | cons c' cs ih =>
      intro db h
      rcases List.mem_cons.mp h with rfl | h
      · refine ⟨⟨db.autoIncrement, c.1, c.2.1, c.2.2⟩, ?_, rfl, rfl, rfl⟩
        refine (isPrefix_foldl_insertChange cs (db.insertChange c.1 c.2.1 c.2.2)).subset ?_
        exact List.mem_append_right _ List.mem_cons_self
      · exact ih _ h
  exact hinsert t.changes _ h

end Database

/-- A transaction lists its changes. The version does not go back, the rows for `RouteChange` are
newer than the version before and not newer than the one after, and there is one for every key whose
hosts are changed. -/
structure Transaction.Lists (db : Database) (t : Transaction) : Prop where
  version : ∃ v ∈ db.tables.version, ∃ v' ∈ (db.commit t).tables.version, v ≤ v' ∧
    ∀ c ∈ t.changes, v < c.2.2.toNat ∧ (c.2.2.toNat : ℤ) ≤ v'
  keys : ∀ key, (routeMap (db.commit t).tables.routeData).get key ≠
    (routeMap db.tables.routeData).get key →
      ∃ c ∈ t.changes, routeKey (atoi c.1) (atoi c.2.1) = key

/-- Transactions one after the other list their changes. -/
def Listed : Database → List Transaction → Prop
  | _, [] => True
  | db, t :: ts => t.Lists db ∧ Listed (db.commit t) ts

namespace Server

/-- The hosts of a key in the table. -/
def hosts (s : Server) (key : UInt64) : Finset UInt64 := (routeMap s.db.tables.routeData).get key

/-- There is a change of the key in `RouteChange`. -/
def Waits (s : Server) (key : UInt64) : Prop := ∃ row ∈ s.db.routeChange, changeKey row = key

/-- There is one that is newer than the version recorded. -/
def Unread (s : Server) (key : UInt64) : Prop :=
  ∃ row ∈ s.db.routeChange, changeKey row = key ∧ s.route.version < row.version.toNat

/-- Neither the version recorded nor a change is newer than `RouteVersion`. -/
def Versioned (s : Server) : Prop :=
  ∃ v ∈ s.db.tables.version, s.route.version ≤ v ∧
    ∀ row ∈ s.db.routeChange, (row.version.toNat : ℤ) ≤ v

theorem Unread.waits {s : Server} {key : UInt64} (h : s.Unread key) : s.Waits key := by
  obtain ⟨row, hrow, hkey, -⟩ := h
  exact ⟨row, hrow, hkey⟩

/-- What a part of a pass does that records no version: changed hosts have a change unread, and what
is unread stays unread. -/
structure Proceeds (s s' : Server) : Prop where
  versioned : s'.Versioned
  hosts : ∀ key, s'.hosts key ≠ s.hosts key → s'.Unread key
  unread : ∀ key, s.Unread key → s'.Unread key

theorem Proceeds.refl {s : Server} (h : s.Versioned) : s.Proceeds s where
  versioned := h
  hosts _ hne := absurd rfl hne
  unread _ h := h

theorem Proceeds.trans {s s' s'' : Server} (h : s.Proceeds s') (h' : s'.Proceeds s'') :
    s.Proceeds s'' where
  versioned := h'.versioned
  hosts key hne := by
    by_cases heq : s''.hosts key = s'.hosts key
    · exact h'.unread key (h.hosts key (heq ▸ hne))
    · exact h'.hosts key heq
  unread key hunread := h'.unread key (h.unread key hunread)

/-- It says nothing about the map served. -/
theorem Proceeds.congr {s s' s'' : Server} (h : s.Proceeds s') (hdb : s''.db = s'.db)
    (hversion : s''.route.version = s'.route.version) : s.Proceeds s'' where
  versioned := by
    rw [Versioned, hdb, hversion]
    exact h.versioned
  hosts key hne := by
    rw [Unread, hdb, hversion]
    rw [Server.hosts, hdb] at hne
    exact h.hosts key hne
  unread key hunread := by
    rw [Unread, hdb, hversion]
    exact h.unread key hunread

theorem proceeds_commit {s : Server} (hs : s.Versioned) {t : Transaction} (ht : t.Lists s.db) :
    s.Proceeds (s.commit t) := by
  obtain ⟨v, hv, hroute, hrows⟩ := hs
  obtain ⟨v₁, hv₁, v', hv', hle, hchanges⟩ := ht.version
  obtain rfl : v = v₁ := Option.some.inj (hv.symm.trans hv₁)
  refine ⟨⟨v', hv', hroute.trans hle, fun row hrow => ?_⟩, fun key hne => ?_, ?_⟩
  · rcases Database.mem_routeChange_commit hrow with hold | ⟨c, hc, hversion⟩
    · exact (hrows row hold).trans hle
    · rw [hversion]
      exact (hchanges c hc).2
  · obtain ⟨c, hc, rfl⟩ := ht.keys key hne
    obtain ⟨row, hrow, hmodid, hcmdid, hversion⟩ := Database.exists_row_of_mem_changes hc s.db
    refine ⟨row, hrow, by rw [changeKey, hmodid, hcmdid], ?_⟩
    rw [hversion]
    exact hroute.trans_lt (hchanges c hc).1
  · rintro key ⟨row, hrow, hkey, hnew⟩
    exact ⟨row, Database.routeChange_subset_commit s.db t hrow, hkey, hnew⟩

/-- Transactions that list their changes leave changed hosts with a change unread. -/
theorem proceeds_commits {s : Server} (hs : s.Versioned) {ts : List Transaction}
    (hts : Listed s.db ts) : s.Proceeds (s.commits ts) := by
  induction ts generalizing s with
  | nil => exact .refl hs
  | cons t ts ih =>
    have ht := proceeds_commit hs hts.1
    exact ht.trans (ih ht.versioned hts.2)

theorem Waits.commits {s : Server} {key : UInt64} (h : s.Waits key) (ts : List Transaction) :
    (s.commits ts).Waits key := by
  induction ts generalizing s with
  | nil => exact h
  | cons t ts ih =>
    obtain ⟨row, hrow, hkey⟩ := h
    exact ih ⟨row, Database.routeChange_subset_commit s.db t hrow, hkey⟩

/-! ### The parts of a pass -/

theorem Proceeds.checkVersion {s : Server} (hs : s.Versioned) {it : Iteration}
    (hit : Listed s.db it.beforeVersion) (hnew : (s.checkVersion it).1 ≠ 1) :
    s.Proceeds (s.checkVersion it).2 := by
  have hroute : (s.checkVersion it).2.route = (s.commits it.beforeVersion).route :=
    Route.loadVersion_not_new hnew
  exact (proceeds_commits hs hit).congr rfl (by rw [hroute])

/-- A new version is that of the database. -/
theorem versioned_of_new {s : Server} (hs : s.Versioned) {it : Iteration}
    (hit : Listed s.db it.beforeVersion) (hnew : (s.checkVersion it).1 = 1) :
    (s.checkVersion it).2.Versioned := by
  obtain ⟨v, hv, -, hrows⟩ := (proceeds_commits hs hit).versioned
  have hversion := Route.loadVersion_new hnew
  exact ⟨_, hversion, le_rfl, fun row hrow =>
    (hrows row hrow).trans_eq (Option.some.inj (hv.symm.trans hversion))⟩

theorem proceeds_reload {s : Server} (hs : s.Versioned) {it : Iteration}
    (hit : Listed s.db it.beforeData) : s.Proceeds (s.reload it) :=
  (proceeds_commits hs hit).congr (db_reload it s) (by rw [version_reload, route_commits])

theorem Waits.reload {s : Server} {key : UInt64} (h : s.Waits key) (it : Iteration) :
    (s.reload it).Waits key := by
  rw [Waits, db_reload]
  exact h.commits it.beforeData

/-- A load that succeeds serves the hosts of the table. -/
theorem get_reload_ok {it : Iteration} (hit : it.dataAnswer = .ok) (s : Server) (key : UInt64) :
    (s.reload it).route.data.get key = (s.reload it).hosts key := by
  rw [hosts, db_reload, data_reload_ok hit]

theorem proceeds_announce {s : Server} (hs : s.Versioned) {it : Iteration}
    (hit : Listed s.db it.beforeChanges) : s.Proceeds (s.announce it).2 :=
  (proceeds_commits hs hit).congr rfl rfl

/-- A change is read unless it is newer than the version recorded. -/
theorem Waits.announce {s : Server} {key : UInt64} (h : s.Waits key) {it : Iteration}
    (hit : it.changesAnswer = .ok) :
    key ∈ (s.announce it).1.map changeKey ∨ (s.announce it).2.Unread key := by
  obtain ⟨row, hrow, hkey⟩ := h.commits it.beforeChanges
  by_cases hcovers : (s.commits it.beforeChanges).route.covers row = true
  · refine Or.inl (List.mem_map.mpr ⟨row, ?_, hkey⟩)
    rw [Server.announce, hit]
    exact List.mem_filter.mpr ⟨hrow, hcovers⟩
  · exact Or.inr ⟨row, hrow, hkey, not_le.mp fun hle => hcovers (decide_eq_true hle)⟩

theorem db_remove (s : Server) (it : Iteration) :
    (s.remove it).2.db = (s.commits it.beforeDelete).db ∨
      (s.remove it).2.db = (s.commits it.beforeDelete).db.deleteChanges
        fun row => false || (s.commits it.beforeDelete).route.covers row := by
  unfold Server.remove Route.removeChanges
  dsimp only
  split
  · exact Or.inr rfl
  · exact Or.inl rfl

/-- What is deleted is not newer than the version recorded. -/
theorem proceeds_remove {s : Server} (hs : s.Versioned) {it : Iteration}
    (hit : Listed s.db it.beforeDelete) : s.Proceeds (s.remove it).2 := by
  have h := proceeds_commits hs hit
  rcases s.db_remove it with hkeep | hdelete
  · exact h.congr hkeep rfl
  · refine h.trans ⟨?_, fun key hne => absurd ?_ hne, ?_⟩
    · obtain ⟨v, hv, hroute, hrows⟩ := h.versioned
      rw [Versioned, hdelete]
      exact ⟨v, hv, hroute, fun row hrow => hrows row (List.mem_filter.mp hrow).1⟩
    · rw [Server.hosts, hdelete]
      rfl
    · rintro key ⟨row, hrow, hkey, hnew⟩
      rw [Unread, hdelete]
      refine ⟨row, List.mem_filter.mpr ⟨hrow, ?_⟩, hkey, hnew⟩
      simpa [Route.covers] using hnew

/-- A server whose subscribers can be kept up to date: neither the version recorded nor a change is
newer than `RouteVersion`, and the hosts served are those of the table or have a change unread. -/
structure Ready (s : Server) : Prop where
  versioned : s.Versioned
  served : ∀ key, s.route.data.get key = s.hosts key ∨ s.Unread key

/-- The constructor and the clean-up leave one if no transaction between the first query of the
constructor and the deletion changes the routes, and none after the second takes the version back.
A change that is committed in between is deleted, and nobody hears of it. -/
theorem ready_cleanUp {db : Database} {between before : List Transaction} (time : ℤ) {v v' : ℤ}
    (hv : (between.foldl Database.commit db).tables.version = some v)
    (hv' : ((between ++ before).foldl Database.commit db).tables.version = some v') (hle : v ≤ v')
    (hroutes : routeMap ((between ++ before).foldl Database.commit db).tables.routeData =
      routeMap db.tables.routeData) :
    ∃ s, construct db .ok between .ok time = some s ∧ Ready (s.cleanUp before .ok) := by
  obtain ⟨route, hbuild, hdata⟩ := Option.map_eq_some_iff.mp (Route.data_buildMaps db.tables)
  refine ⟨_, by rw [construct, hbuild]; rfl, ?_⟩
  set s := commits ⟨db, route, time, [], []⟩ between with hs
  have hdb : s.db = between.foldl Database.commit db := db_commits _ _
  set s' : Server := { s with route := (s.route.loadVersion .ok s.db.tables).2 } with hs'
  have hdb' : (s'.commits before).db = (between ++ before).foldl Database.commit db := by
    rw [db_commits, List.foldl_append, ← hdb]
  have hversion : s'.route.version = v := Route.version_loadVersion (hdb ▸ hv) s.route
  refine ⟨⟨v', ?_, ?_, fun row hrow => ?_⟩, fun key => Or.inl ?_⟩
  · exact (congrArg (fun db => db.tables.version) hdb').trans hv'
  · rw [cleanUp, route_commits, hversion]
    exact hle
  · -- no row is left
    have hkept := (List.mem_filter.mp hrow).2
    simp at hkept
  · have hserved : (s'.cleanUp before .ok).route.data = routeMap db.tables.routeData := by
      rw [cleanUp, route_commits, hs', Route.data_loadVersion, hs, route_commits, hdata]
    rw [hserved, ← hroutes, ← hdb']
    rfl

end Server

end Lars.Dns
