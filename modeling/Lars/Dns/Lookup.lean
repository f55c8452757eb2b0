import Lars.Agent.Pull
import Lars.Proto.Messages
import Lars.Reactor.Link

/-!
# Looking routes up over a connection

A client of the DNS server (`lars_dns/test/lars_dns_test1.cc`) sends requests of routes on its
connection, as bytes that the generated code writes. The server's handler `get_route` parses a
request, looks the hosts up in the route map as it then is, and sends a response, which the client's
handler parses. Another thread may exchange the route map between two calls of the handler.

* `lookup`: the responses that the client parses are, in the order of its requests, the routes that
  one of the maps served had for the request.
-/

namespace Lars.Dns

open Machine Reactor Framing WireFormat

/-- The hosts of a module and a command as the loop of `get_route` meets them: the order of a hash
set. -/
abbrev HostOrder := Int32 → Int32 → List UInt64

/-- The hosts are those of a route map. -/
def HostOrder.Of (hosts : HostOrder) (r : Route) : Prop :=
  ∀ modid cmdid, (hosts modid cmdid).Nodup ∧ (hosts modid cmdid).toFinset = r.getHosts modid cmdid

/-- The `HostInfo` that `get_route` adds for a host. -/
def routeHost (ipPort : UInt64) : HostInfo := ⟨(ipPort >>> 32).toUInt32.toInt32, toInt ipPort⟩

/-- The response that `get_route` builds, with the hosts in their order. -/
def response (hosts : HostOrder) (modid cmdid : Int32) : Proto.GetRouteResponse :=
  ⟨modid, cmdid, (hosts modid cmdid).map routeHost⟩

/-- Without the order it is the routes of the map. -/
theorem toDns_response {hosts : HostOrder} {r : Route} (h : hosts.Of r) (modid cmdid : Int32) :
    (response hosts modid cmdid).toDns = getRoute r.getHosts modid cmdid := by
  obtain ⟨hnodup, hset⟩ := h modid cmdid
  have hval : ((hosts modid cmdid : List UInt64) : Multiset UInt64) =
      (r.getHosts modid cmdid).val := by
    rw [← hset, List.toFinset_val, hnodup.dedup]
  rw [Proto.GetRouteResponse.toDns, response, getRoute, ← hval]
  rfl

variable (R : ProtobufRuntime)

/-- The message with a request. -/
def question (req : GetRouteRequest) : Dispatch :=
  ⟨MessageId.getRouteRequest.toInt, (GetRouteRequest.code R).serialize req⟩

/-- The message with the response to a request. -/
def routeAnswer (hosts : HostOrder) (req : GetRouteRequest) : Dispatch :=
  ⟨MessageId.getRouteResponse.toInt,
    (Proto.GetRouteResponse.code R).serialize (response hosts req.modid req.cmdid)⟩

/-- The handler `get_route`, which does not look at what `ParseFromArray` returns. -/
def routeHandler (hosts : HostOrder) (ctl : Bool) (m : Dispatch) : List UserAct :=
  let req := ((GetRouteRequest.code R).parse m.body).2
  let resp := routeAnswer R hosts req
  [.send resp.id resp.body ctl]

/-- The handlers registered by the constructor of `dns_server`. -/
def dnsServer (hosts : HostOrder) (ctl : Bool) : HandlerMap (Dispatch → List UserAct) :=
  process [⟨(), MessageId.getRouteRequest.toInt, routeHandler R hosts ctl⟩]

/-- The handlers of the server, when every call of one finds some route map that is `current`. -/
structure ServesRoutes (current : Route → Prop) (h : Handlers) : Prop where
  registered : ∀ id, h.registered id = true → id = MessageId.getRouteRequest.toInt
  script : ∀ ds, ∃ hosts r ctl, current r ∧ HostOrder.Of hosts r ∧
    h.script ds = (Agent.handlersOf (dnsServer R hosts ctl)).script ds

/-- An event on a connection of the server, which sends nothing unasked. -/
def OfServer (current : Route → Prop) : LinkEvent → Prop
  | .server ⟨.send _ _, _, _⟩ => False
  | .server ⟨.handleRead _ _ h, _, _⟩ => ServesRoutes R current h
  | _ => True

/-- The message `m'` has the routes that a current map has for the request in the message `m`. -/
def IsAnswer (current : Route → Prop) (m m' : Dispatch) : Prop :=
  ∃ hosts r, current r ∧ HostOrder.Of hosts r ∧
    m' = routeAnswer R hosts ((GetRouteRequest.code R).parse m.body).2

variable {R} {current : Route → Prop}

theorem answers_of_server {ev : LinkEvent} (h : OfServer R current ev) :
    Link.Answers (IsAnswer R current) ev := by
  rcases ev with ⟨⟨id, body⟩ | answers | ⟨interruptions, n, hs⟩, pool, env⟩ | ev
  · exact h
  · exact trivial
  · intro ds m hreg
    obtain ⟨hosts, r, ctl, hr, hof, hscript⟩ := h.script (ds ++ [m])
    refine ⟨routeAnswer R hosts ((GetRouteRequest.code R).parse m.body).2, ?_, hosts, r, hr, hof,
      rfl⟩
    rw [hscript, Agent.handlersOf]
    simp only [List.getLast?_append, List.getLast?_singleton, Option.some_or]
    rw [h.registered m.id hreg]
    rfl
  · exact trivial

theorem parse_question (req : GetRouteRequest) :
    (GetRouteRequest.code R).parse (question R req).body = (true, req) := by
  refine Message.parse_serialize ?_
  have hmodid := length_varintField_le 1 (ofInt req.modid)
  have hcmdid := length_varintField_le 2 (ofInt req.cmdid)
  change (varintField 1 (ofInt req.modid) ++ varintField 2 (ofInt req.cmdid)).length ≤ maxSize
  simp only [List.length_append, maxSize]
  omega

/-- What fits a frame is not too long for the generated code. -/
theorem parse_routeAnswer {hosts : HostOrder} {req : GetRouteRequest}
    (h : (routeAnswer R hosts req).Fits) :
    (Proto.GetRouteResponse.code R).parse (routeAnswer R hosts req).body =
      (true, response hosts req.modid req.cmdid) := by
  refine Message.parse_serialize ?_
  have hmax : messageMaxSize - messageHeaderSize ≤ maxSize := by decide
  exact Nat.le_trans h hmax

variable (R current) in
/-- The client's handler parses the routes that a current map has for a request. -/
def Routes (req : GetRouteRequest) (m : Dispatch) : Prop :=
  m.id = MessageId.getRouteResponse.toInt ∧
    ∃ resp r, (Proto.GetRouteResponse.code R).parse m.body = (true, resp) ∧ current r ∧
      resp.toDns = getRoute r.getHosts req.modid req.cmdid

theorem IsAnswer.routes {req : GetRouteRequest} {m : Dispatch}
    (h : IsAnswer R current (question R req) m) (hm : m.Fits) : Routes R current req m := by
  obtain ⟨hosts, r, hr, hof, rfl⟩ := h
  rw [parse_question] at hm ⊢
  exact ⟨rfl, response hosts req.modid req.cmdid, r, parse_routeAnswer hm, hr,
    toDns_response hof req.modid req.cmdid⟩

/-- Answers to questions that fit are routes. -/
theorem forall₂_routes {reqs : List GetRouteRequest} {ms : List Dispatch}
    (h : List.Forall₂ (IsAnswer R current) (reqs.map (question R)) ms)
    (hms : ∀ m ∈ ms, m.Fits) : List.Forall₂ (Routes R current) reqs ms := by
  rw [List.forall₂_map_left_iff] at h
  induction h with
  | nil => exact .nil
  | cons hm _ ih =>
    exact .cons (hm.routes (hms _ List.mem_cons_self))
      (ih fun m hm => hms m (List.mem_cons_of_mem _ hm))

/-- **Looking routes up.** On a connection to the server, from its opening on and whatever the order
of the calls at its ends, if the client sends requests of routes, the responses that its handlers
have been called with so far are routes for its first requests, one for each and in their order; for
all of its requests when nothing is under way. -/
theorem lookup {onBuild : List UserAct} {env : ClientEnv} {c : TcpConn} {k : TcpClient}
    (h : Link.Opens onBuild env c k) (hsilent : onBuild.filterMap UserAct.message? = []) {s : Link}
    (hs : Link.connect onBuild env c k = .ok s) {es : List LinkEvent}
    (hes : Along Link.step Link.Fair s es) (hserver : ∀ ev ∈ es, OfServer R current ev) :
    ∃ outs s', run Link.step s es = .ok (outs, s') ∧
      ∀ reqs : List GetRouteRequest, s'.client.sent = reqs.map (question R) →
        List.Forall₂ (Routes R current) (reqs.take s'.client.got.length) s'.client.got ∧
          (s'.Idle → List.Forall₂ (Routes R current) reqs s'.client.got) := by
  obtain ⟨outs, s', hrun, h'⟩ := (Link.right_connect h hs).run hes
  have hall := Link.answers_connect hsilent hs (fun ev hev => answers_of_server (hserver ev hev))
    hrun
  obtain ⟨hfirst, hidle⟩ := h'.answered hall
  have hfits : ∀ m ∈ s'.client.got, m.Fits := fun m hm =>
    h'.toClient.fits m (h'.toClient.got_isPrefix.subset hm)
  refine ⟨outs, s', hrun, fun reqs hreqs => ⟨?_, fun h => ?_⟩⟩
  · rw [hreqs, ← List.map_take] at hfirst
    exact forall₂_routes hfirst hfits
  · have hlast := hidle h
    rw [hreqs] at hlast
    exact forall₂_routes hlast hfits

/-- The only host of the only route, of command 2 of module 1. -/
def oneHost : HostOrder := fun modid cmdid =>
  if modid = 1 ∧ cmdid = 2 then [hostValue 5 80] else []

/-- The route map with the host. -/
def oneRoute : Route :=
  { Route.new with heap := Function.update (fun _ => ∅) 0 (routeMap [⟨1, 2, 5, 80⟩]) }

theorem oneHost_of : oneHost.Of oneRoute := by
  intro modid cmdid
  have hget : oneRoute.getHosts modid cmdid = hostsOf [⟨1, 2, 5, 80⟩] modid cmdid :=
    get_routeMap [⟨1, 2, 5, 80⟩] modid cmdid
  rw [hget]
  unfold oneHost hostsOf
  by_cases hids : modid = 1 ∧ cmdid = 2
  · obtain ⟨rfl, rfl⟩ := hids
    decide
  · have hrow : ¬ (atoi 1 = modid ∧ atoi 2 = cmdid) := fun ⟨hm, hc⟩ => hids ⟨hm.symm, hc.symm⟩
    simp [hids, hrow]

/-- A request, its response and another request. -/
def lookupEvents : List LinkEvent :=
  let server : Handlers := Agent.handlersOf (dnsServer base128 oneHost true)
  [.client ⟨.send MessageId.getRouteRequest.toInt (question base128 ⟨1, 2⟩).body,
      .ofCounts fun _ => 2, Link.quiet⟩,
    .client ⟨.handleWrite [.accepted 99], .ofCounts fun _ => 2, Link.quiet⟩,
    .server ⟨.handleRead 0 99 server, .ofCounts fun _ => 2, true⟩,
    .server ⟨.handleWrite [.accepted 99], .ofCounts fun _ => 2, true⟩,
    .client ⟨.handleRead 0 99 ⟨fun _ => true, fun _ => []⟩, .ofCounts fun _ => 2, Link.quiet⟩]

theorem fair_lookup : Along Link.step Link.Fair Link.fresh lookupEvents := by
  have hwrite : WriteAnswer.failed ∉ [WriteAnswer.accepted 99] := by decide
  refine along_cons ⟨by decide, output_eq_some.mp (by decide)⟩ <| along_cons hwrite <|
    along_cons ⟨by decide, ?_⟩ <| along_cons hwrite <| along_cons ⟨by decide, ?_⟩ <| along_nil _ _
  · exact ⟨.of_eval (by decide) (by decide) (by decide), .of_eval 3 (by decide), by decide,
      by decide⟩
  · exact ⟨.of_eval (by decide) (by decide) (by decide), .of_eval 3 (by decide), by decide,
      trivial⟩

theorem lookup_once : ∃ outs s', run Link.step Link.fresh lookupEvents = .ok (outs, s') ∧
    List.Forall₂ (Routes base128 (· = oneRoute)) [⟨1, 2⟩] s'.client.got := by
  have hserver : ∀ ev ∈ lookupEvents, OfServer base128 (· = oneRoute) ev := by
    have hroutes : ServesRoutes base128 (· = oneRoute)
        (Agent.handlersOf (dnsServer base128 oneHost true)) := by
      refine ⟨fun id hid => ?_, fun ds => ⟨oneHost, oneRoute, true, rfl, oneHost_of, rfl⟩⟩
      by_contra hne
      simp [Agent.handlersOf, dnsServer, process, HandlerMap.getHandler,
        HandlerMap.registerHandler, hne] at hid
    simp only [lookupEvents, List.forall_mem_cons, List.not_mem_nil, false_imp_iff, implies_true,
      and_true]
    exact ⟨trivial, trivial, hroutes, trivial, trivial⟩
  obtain ⟨outs, s', hrun, hlookup⟩ := lookup Link.opens_new rfl Link.connect_new fair_lookup hserver
  have hend : ((run Link.step Link.fresh lookupEvents).map fun r =>
      (r.2.client.sent, (ReactorBuf.length r.2.server.conn.obuf, r.2.server.outgoing),
        ReactorBuf.length r.2.client.conn.obuf, r.2.client.outgoing)).toOption =
      some ([question base128 ⟨1, 2⟩], (0, []), 0, []) := by decide
  rw [hrun] at hend
  obtain ⟨hsent, hend⟩ := Prod.mk.inj (Option.some.inj hend)
  obtain ⟨hserver', hclient⟩ := Prod.mk.inj hend
  exact ⟨outs, s', hrun, (hlookup [⟨1, 2⟩] hsent).2
    ⟨Prod.mk.inj hserver', Prod.mk.inj hclient⟩⟩

end Lars.Dns
