import Lars.Dns.Route

/-!
# Lookups in the route map

What `get_hosts` finds is what the table says (`hostsOf`): the packed hosts of the rows of a module
and a command, after `build_maps` as after a load and a `swap`. The order of the rows has no say,
duplicates neither, and the sign of the ids does no harm.
-/

namespace Lars.Dns

/-- The packed host of a row. -/
def rowHost (row : RouteRow) : UInt64 :=
  hostValue (atoi row.serverip).toUInt32 (atoi row.serverport)

/-- The hosts of a module's id and a command's id in a table. -/
def hostsOf (rows : List RouteRow) (modid cmdid : Int32) : Finset UInt64 :=
  ((rows.filter fun row => atoi row.modid = modid ∧ atoi row.cmdid = cmdid).map rowHost).toFinset

theorem mem_hostsOf {rows : List RouteRow} {modid cmdid : Int32} {host : UInt64} :
    host ∈ hostsOf rows modid cmdid ↔
      ∃ row ∈ rows, (atoi row.modid = modid ∧ atoi row.cmdid = cmdid) ∧ rowHost row = host := by
  simp [hostsOf, and_assoc]

/-- The rows add their hosts under their keys. -/
theorem mem_get_foldl_insertRow {rows : List RouteRow} {m : RouteMap} {key host : UInt64} :
    host ∈ (rows.foldl insertRow m).get key ↔
      host ∈ m.get key ∨
        ∃ row ∈ rows, routeKey (atoi row.modid) (atoi row.cmdid) = key ∧ rowHost row = host := by
  induction rows generalizing m with
  | nil => simp
  | cons row rows ih =>
    rw [List.foldl_cons, ih, insertRow, SetMap.mem_get_emplace, List.exists_mem_cons_iff]
    constructor
    · rintro ((⟨rfl, rfl⟩ | h) | h)
      · exact Or.inr (Or.inl ⟨rfl, rfl⟩)
      · exact Or.inl h
      · exact Or.inr (Or.inr h)
    · rintro (h | ⟨hkey, hhost⟩ | h)
      · exact Or.inl (Or.inr h)
      · exact Or.inl (Or.inl ⟨hkey.symm, hhost.symm⟩)
      · exact Or.inr h

/-- The map of a table has the table's hosts under the key of any two ids. -/
theorem get_routeMap (rows : List RouteRow) (modid cmdid : Int32) :
    (routeMap rows).get (routeKey modid cmdid) = hostsOf rows modid cmdid := by
  ext host
  rw [routeMap, mem_get_foldl_insertRow, mem_hostsOf]
  simp only [SetMap.get_empty, Finset.notMem_empty, false_or, routeKey_injective.eq_iff]

/-- **Lookups agree with the table**, after `build_maps` on an empty map and after a load that
succeeds and a `swap`; and two pairs of ids are never one key, nor two hosts one value. -/
theorem getHosts_eq_hostsOf (tables : Tables) (modid cmdid : Int32) :
    (∀ r : Route, r.data = ∅ → ∃ r', r.buildMaps .ok tables = some r' ∧
      r'.getHosts modid cmdid = hostsOf tables.routeData modid cmdid) ∧
    (∀ (r r' : Route) (answer : QueryAnswer) (unique : Bool),
      r.loadRouteData answer tables = (0, r') →
      (r'.swap unique).getHosts modid cmdid = hostsOf tables.routeData modid cmdid) ∧
    Function.Injective2 routeKey ∧ Function.Injective2 hostValue := by
  refine ⟨fun r hr => ?_, fun r r' answer unique h => ?_, routeKey_injective, hostValue_injective⟩
  · refine ⟨_, rfl, ?_⟩
    rw [Route.getHosts, Route.data_store_data, hr]
    exact get_routeMap tables.routeData modid cmdid
  · obtain rfl : answer = .ok := Route.loadRouteData_eq_zero.mp (by rw [h])
    have htmp := Route.tmp_loadRouteData tables r
    rw [h] at htmp
    rw [Route.getHosts, Route.data_swap, htmp, get_routeMap]

/-- Two hosts of module 1 and command -1, one of them entered twice. -/
def twoHosts : Tables where
  routeData := [⟨1, 0xffffffff, 5, 80⟩, ⟨1, 0xffffffff, 6, 80⟩, ⟨1, 0xffffffff, 5, 80⟩]
  routeVersion := some 1

/-- They are found after `build_maps`, and after a load that returns 0 and a `swap` when the map that
was served is still in use. -/
theorem getHosts_eq_hostsOf_rows :
    (∃ r', Route.new.buildMaps .ok twoHosts = some r' ∧
      r'.getHosts 1 (-1) = {hostValue 5 80, hostValue 6 80}) ∧
    ∃ r', Route.new.loadRouteData .ok twoHosts = (0, r') ∧
      (r'.swap false).getHosts 1 (-1) = {hostValue 5 80, hostValue 6 80} := by
  have hhosts : hostsOf twoHosts.routeData 1 (-1) = {hostValue 5 80, hostValue 6 80} := by decide
  obtain ⟨hbuild, hload, -, -⟩ := getHosts_eq_hostsOf twoHosts 1 (-1)
  rw [← hhosts]
  exact ⟨hbuild Route.new rfl, _, rfl, hload Route.new _ .ok false rfl⟩

end Lars.Dns
