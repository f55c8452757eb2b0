import Lars.Dns.GetHosts
import Lars.Dns.Subscribe

/-!
# Pushed and pulled routes

An agent learns the hosts of a module and a command in two ways: it asks for them, and `get_route`
(`lars_dns/src/dns_server.cc`) answers; or they change, and `push_change_task` sends them on. The
answer should be the same. It is for commands with an id that is not negative: `push_change_task`
takes the key apart without regard to what the sign of the lower half has done to the upper.
-/

namespace Lars.Dns

/-- The `GetRouteResponse` that `get_route` builds for a request with a module's id and a command's
id. -/
def getRoute (route : Int32 → Int32 → Finset UInt64) (modid cmdid : Int32) : GetRouteResponse :=
  ⟨modid, cmdid, (route modid cmdid).val.map fun ipPort : UInt64 =>
    ⟨(ipPort >>> 32).toUInt32.toInt32, toInt ipPort⟩⟩

/-- What a push for a key carries: the module's id may have lost one. -/
theorem pushResponse_routeKey (route : Int32 → Int32 → Finset UInt64) (modid cmdid : Int32) :
    pushResponse route (routeKey modid cmdid) =
      getRoute route (modid - if cmdid < 0 then 1 else 0) cmdid := by
  rw [pushResponse, toInt_routeKey, toInt_routeKey_upper]
  rfl

/-- **Push agrees with pull** on a row of `RouteChange`, whatever the route map, if and only if the
command's id is not negative. -/
theorem push_eq_pull_iff (r : Route) (row : ChangeRow) :
    pushResponse r.getHosts (changeKey row) =
        getRoute r.getHosts (atoi row.modid) (atoi row.cmdid) ↔
      0 ≤ atoi row.cmdid := by
  rw [changeKey, pushResponse_routeKey]
  by_cases hneg : atoi row.cmdid < 0
  · rw [if_pos hneg]
    refine iff_of_false (fun h => ?_) (Int32.not_le.mpr hneg)
    have hmodid : atoi row.modid - 1 = atoi row.modid - 0 :=
      (congrArg GetRouteResponse.modid h).trans (Int32.sub_zero _).symm
    exact absurd ((Int32.sub_right_inj _).mp hmodid) (by decide)
  · rw [if_neg hneg, Int32.sub_zero]
    exact iff_of_true rfl (Int32.not_lt.mp hneg)

/-- The change of command 4294967295 of module 1 is pushed as one of module 0. -/
theorem not_push_eq_pull :
    ¬ ∀ (answer : QueryAnswer) (db : Database) (r : Route), ∀ row ∈ r.loadChanges answer db,
      pushResponse r.getHosts (changeKey row) =
        getRoute r.getHosts (atoi row.modid) (atoi row.cmdid) := by
  intro hall
  have h := hall .ok ⟨⟨[], some 0⟩, [⟨0, 1, 0xffffffff, 0⟩], 1, by simp, by simp⟩ Route.new
    ⟨0, 1, 0xffffffff, 0⟩ (by decide)
  exact absurd (congrArg GetRouteResponse.modid h) (by decide)

end Lars.Dns
