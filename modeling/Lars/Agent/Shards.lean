import Lars.Proto
import Lars.Reactor.BufPool
import Lars.Reactor.HandlerMap

/-!
# The shards of the agent

An agent serves hosts through three UDP servers on the ports from 8888 on, and keeps what it knows
of routes in three tables, `g_route_lbs` (`lars_agent/src/agent_server.cc`). A module and a command
belong to shard `(modid + cmdid) % 3`: the API sends its requests to the server of that index
(`lars_client::get_host`), and routes that arrive go to the table of that index
(`dns_client::deal_recv_route`). Server `i` is started with a handler bound to table `i`.

* The two indices are good if and only if the sum of the ids is no overflow and its remainder is not
  negative (`shard_agreed_iff`).
* All three handlers are registered in one table under one id. Requests are served from the table of
  the server that registered last (`ownHandler_iff`).
-/

namespace Lars.Agent

open Reactor Machine

/-! ## Indices -/

/-- The sum of two `int` is one. -/
def SumFits (a b : Int32) : Prop := -2 ^ 31 ≤ a.toInt + b.toInt ∧ a.toInt + b.toInt < 2 ^ 31

instance instDecidableSumFits (a b : Int32) : Decidable (SumFits a b) :=
  inferInstanceAs (Decidable (_ ∧ _))

/-- `a + b` of two `int`; an overflow is undefined. -/
def addInt (a b : Int32) : Except Halt Int32 :=
  if SumFits a b then .ok (a + b) else .error .undefined

/-- The element of a `std::vector` at an index of type `int`; there is none outside it. -/
def element {α : Type} (xs : List α) (index : Int32) : Except Halt α :=
  if index.toInt < 0 then .error .undefined
  else
    match xs[index.toInt.toNat]? with
    | some x => .ok x
    | none => .error .undefined

/-- `(modid + cmdid) % 3`. -/
def shardIndex (modid cmdid : Int32) : Except Halt Int32 := do
  let sum ← addInt modid cmdid
  .ok (sum % 3)

/-- `m_socks`, by the ports that the constructor of `lars_client` connects them to. -/
def socks : List ℕ := (List.range 3).map (8888 + ·)

/-- `g_route_lbs`, by the ids that `create_route_lb` gives the elements. -/
def gRouteLbs : List ℕ := (List.range 3).map (· + 1)

/-- The index in `lars_client::get_host`. -/
def getHostIndex (modid cmdid : Int32) : Except Halt Int32 := shardIndex modid cmdid

/-- The socket that `lars_client::get_host` sends on and receives from. -/
def getHostSock (modid cmdid : Int32) : Except Halt ℕ := do
  let index ← getHostIndex modid cmdid
  element socks index

/-- The index in `dns_client::deal_recv_route`. -/
def dealRecvRouteIndex (modid cmdid : Int32) : Except Halt Int32 := shardIndex modid cmdid

/-- The table that `dns_client::deal_recv_route` updates. -/
def dealRecvRoute (modid cmdid : Int32) : Except Halt ℕ := do
  let index ← dealRecvRouteIndex modid cmdid
  element gRouteLbs index

/-- The index is that of the sum in the integers, if it is one at all. -/
theorem shardIndex_eq_ok_iff {modid cmdid index : Int32} :
    shardIndex modid cmdid = .ok index ↔
      SumFits modid cmdid ∧ index.toInt = (modid.toInt + cmdid.toInt).tmod 3 := by
  rw [shardIndex, bind_eq_ok]
  unfold addInt
  split_ifs with h
  · have hsum : (modid + cmdid).toInt = modid.toInt + cmdid.toInt := by
      obtain ⟨hlo, hhi⟩ := h
      rw [Int32.toInt_add, Int.bmod_def]
      omega
    have hmod : ((modid + cmdid) % 3).toInt = (modid.toInt + cmdid.toInt).tmod 3 := by
      rw [Int32.toInt_mod, hsum]
      rfl
    rw [← hmod, Int32.toInt_inj, and_iff_right h]
    constructor
    · rintro ⟨_, ⟨⟩, ⟨⟩⟩
      rfl
    · rintro rfl
      exact ⟨_, rfl, rfl⟩
  · refine iff_of_false ?_ fun hfits => h hfits.1
    rintro ⟨_, ⟨⟩, -⟩

/-- The remainder names a shard if the sum is not negative, or divisible. -/
theorem tmod_three_nonneg_iff (sum : ℤ) : 0 ≤ sum.tmod 3 ↔ 0 ≤ sum ∨ 3 ∣ sum := by
  constructor
  · intro h
    by_contra hcon
    push Not at hcon
    have hneg : sum.tmod 3 = -(-sum).tmod 3 := by rw [Int.neg_tmod, neg_neg]
    rw [hneg, Int.tmod_eq_emod_of_nonneg (by omega)] at h
    omega
  · rintro (h | h)
    · exact Int.tmod_nonneg 3 h
    · rw [Int.tmod_eq_zero_of_dvd h]

/-- An index of a shard names an element. -/
theorem element_eq_ok {α : Type} {xs : List α} {index : Int32} {i : ℕ} {x : α}
    (hindex : index.toInt = i) (hx : xs[i]? = some x) : element xs index = .ok x := by
  have hneg : ¬ index.toInt < 0 := by omega
  have hi : index.toInt.toNat = i := by omega
  rw [element, if_neg hneg, hi, hx]

/-- A shard: the index of its socket's server and of its table. -/
structure OfShard (i : ℕ) (modid cmdid : Int32) : Prop where
  lt : i < 3
  getHost : ∃ index, getHostIndex modid cmdid = .ok index ∧ index.toInt = i
  dealRecvRoute : ∃ index, dealRecvRouteIndex modid cmdid = .ok index ∧ index.toInt = i
  sock : getHostSock modid cmdid = .ok (8888 + i)
  routeLb : Agent.dealRecvRoute modid cmdid = .ok (i + 1)

theorem ofShard_of_index {modid cmdid index : Int32} {i : ℕ}
    (h : shardIndex modid cmdid = .ok index) (hindex : index.toInt = i) (hi : i < 3) :
    OfShard i modid cmdid where
  lt := hi
  getHost := ⟨index, h, hindex⟩
  dealRecvRoute := ⟨index, h, hindex⟩
  sock := by
    rw [getHostSock, getHostIndex, h, ok_bind]
    exact element_eq_ok hindex (by simp [socks, hi])
  routeLb := by
    rw [Agent.dealRecvRoute, dealRecvRouteIndex, h, ok_bind]
    exact element_eq_ok hindex (by simp [gRouteLbs, hi])

/-- **Sharding**: a module and a command have a shard, with both indices computed and in range, if
and only if the sum of their ids is an `int`, and not negative or divisible by 3. -/
theorem shard_agreed_iff (modid cmdid : Int32) :
    (∃ i, OfShard i modid cmdid) ↔
      SumFits modid cmdid ∧ (0 ≤ modid.toInt + cmdid.toInt ∨ 3 ∣ modid.toInt + cmdid.toInt) := by
  rw [← tmod_three_nonneg_iff]
  constructor
  · rintro ⟨i, h⟩
    obtain ⟨index, hindex, hi⟩ := h.getHost
    obtain ⟨hfits, hmod⟩ := shardIndex_eq_ok_iff.mp hindex
    exact ⟨hfits, by omega⟩
  · rintro ⟨hfits, hmod⟩
    obtain ⟨i, hi⟩ := Int.eq_ofNat_of_zero_le hmod
    have hlt := Int.tmod_lt_of_pos (modid.toInt + cmdid.toInt) (show (0 : ℤ) < 3 by decide)
    have hindex : shardIndex modid cmdid = .ok ((modid + cmdid) % 3) := by
      rw [shardIndex, addInt, if_pos hfits]
      rfl
    refine ⟨i, ofShard_of_index hindex ?_ (by omega)⟩
    rw [(shardIndex_eq_ok_iff.mp hindex).2, hi]

/-- Module 1 and command -2 are sent to the socket of index -1. -/
theorem not_shard_agreed : ¬ ∀ modid cmdid : Int32, ∃ i, OfShard i modid cmdid := by
  intro hall
  obtain ⟨i, h⟩ := hall 1 (-2)
  have hsock : getHostSock 1 (-2) = .error .undefined := rfl
  cases hsock.symm.trans h.sock

/-! ## Handlers -/

/-- The objects of the agent that register handlers. -/
inductive AgentEndpoint
  /-- The `udp_server` of `run_udp_server(i)`, on port `8888 + i`. -/
  | udpServer (i : Fin 3)
  /-- The `tcp_client` of `g_dns_client`. -/
  | dnsClient
  deriving DecidableEq

/-- The handlers of the agent. -/
inductive AgentHandler
  /-- `get_host_handler`, bound to an element of `g_route_lbs`. -/
  | getHost (rLb : ℕ)
  /-- `dns_client::deal_recv_route`. -/
  | dealRecvRoute
  deriving DecidableEq

/-- `g_route_lbs[i]`. -/
def routeLb (i : Fin 3) : ℕ := gRouteLbs.getD i 0

/-- The `add_router` in `run_udp_server` and in `dns_client::start`. -/
def AgentEndpoint.addRouter (e : AgentEndpoint) : AddRouter AgentEndpoint AgentHandler :=
  match e with
  | .udpServer i => ⟨e, MessageId.getHostRequest.toInt, .getHost (routeLb i)⟩
  | .dnsClient => ⟨e, MessageId.getRouteResponse.toInt, .dealRecvRoute⟩

/-- The handler of a `GetHostRequest` on any of the ports, once the endpoints have started in the
order given. -/
def getHostHandler (starts : List AgentEndpoint) : Option AgentHandler :=
  (process (starts.map AgentEndpoint.addRouter)).getHandler MessageId.getHostRequest.toInt

/-- The UDP server that has started last. -/
def lastServer (starts : List AgentEndpoint) : Option AgentEndpoint :=
  starts.reverse.find? fun e => e ≠ .dnsClient

theorem routeLb_injective : Function.Injective routeLb := by
  unfold Function.Injective
  decide

theorem getHostHandler_eq (starts : List AgentEndpoint) :
    getHostHandler starts = (lastServer starts).map fun e => e.addRouter.handler := by
  have hid : ∀ e : AgentEndpoint,
      e.addRouter.msgid = MessageId.getHostRequest.toInt ↔ e ≠ .dnsClient := by
    rintro (i | _)
    · exact iff_of_true rfl AgentEndpoint.noConfusion
    · exact iff_of_false (by decide) fun h => h rfl
  rw [getHostHandler, getHandler_process, lastFor, lastServer, ← List.map_reverse, List.find?_map,
    Option.map_map]
  simp only [Function.comp_def, hid]

/-- **Handlers.** A message is dispatched to the handler that its receiver has last registered if
and only if no other endpoint has come after it. In the agent, requests on the port of server `i`
are served from `g_route_lbs[i]`, which `deal_recv_route` updates for the keys of shard `i`, if and
only if server `i` has started last. -/
theorem ownHandler_iff {ι η : Type*} [DecidableEq ι] (calls : List (AddRouter ι η)) (e : ι)
    (msgid : Int32) (starts : List AgentEndpoint) (i : Fin 3) :
    ((process calls).getHandler msgid = own calls e msgid ↔ Undisturbed calls e msgid) ∧
    (getHostHandler starts = some (.getHost (routeLb i)) ↔
      lastServer starts = some (.udpServer i)) ∧
    ∀ modid cmdid, OfShard i modid cmdid → dealRecvRoute modid cmdid = .ok (routeLb i) := by
  refine ⟨getHandler_eq_own_iff calls e msgid, ?_, fun modid cmdid h => ?_⟩
  · rw [getHostHandler_eq]
    cases hlast : lastServer starts with
    | none => simp
    | some server =>
      cases server with
      | udpServer j => simp [AgentEndpoint.addRouter, routeLb_injective.eq_iff]
      | dnsClient => simp [AgentEndpoint.addRouter]
  · rw [h.routeLb, routeLb, gRouteLbs]
    simp

/-- Server 0 starts, and so does server 1; now requests to server 0 are served from
`g_route_lbs[1]`. -/
theorem not_ownHandler :
    (¬ ∀ (calls : List (AddRouter AgentEndpoint AgentHandler)) (e : AgentEndpoint) (msgid : Int32),
      (process calls).getHandler msgid = own calls e msgid) ∧
    ¬ ∀ starts : List AgentEndpoint, ∀ i : Fin 3, .udpServer i ∈ starts →
      getHostHandler starts = some (.getHost (routeLb i)) := by
  refine ⟨fun hall => ?_, fun hall => ?_⟩
  · exact absurd (hall ([.udpServer 0, .udpServer 1].map AgentEndpoint.addRouter) (.udpServer 0)
      MessageId.getHostRequest.toInt) (by decide)
  · exact absurd (hall [.udpServer 0, .udpServer 1] 0 (by decide)) (by decide)

end Lars.Agent
