import Lars.Dns.GetRoute
import Lars.Proto
import Lars.Reactor.HandlerMap
import Lars.Reactor.TcpConnRead

/-!
# The agent asks for routes

`load_balance::pull` (`lars_agent/src/load_balance.cc`) asks the DNS server for the hosts of a
module and a command. The server (`dns_server`, `lars_dns/src/dns_server.cc`) has a handler for
requests of routes, and `pull` sends a request of hosts, which is a message between the API and the
agent with another id. A message without a handler is dropped, so no question of an agent is
answered.
-/

namespace Lars.Agent

open Dns Reactor Machine Framing

/-- What the server uses of the code generated from `lars.proto`. -/
structure Protobuf where
  /-- `GetRouteRequest::ParseFromArray`. -/
  parseGetRouteRequest : List UInt8 → GetRouteRequest
  /-- `GetRouteResponse::SerializeAsString`. -/
  serializeGetRouteResponse : GetRouteResponse → List UInt8

/-- The message that `load_balance::pull` sends. -/
def pull (modid cmdid : Int32) : Dispatch :=
  ⟨MessageId.getHostRequest.toInt, GetHostRequest.serialize { modid, cmdid }⟩

variable (P : Protobuf) (route : Int32 → Int32 → Finset UInt64)

/-- The message that answers a request of routes. -/
def answer (modid cmdid : Int32) : Dispatch :=
  ⟨MessageId.getRouteResponse.toInt, P.serializeGetRouteResponse (getRoute route modid cmdid)⟩

/-- The handler `get_route`; `ctl` is the answer of `epoll_ctl`. -/
def getRouteHandler (ctl : Bool) (m : Dispatch) : List UserAct :=
  let req := P.parseGetRouteRequest m.body
  let resp := answer P route req.modid req.cmdid
  [.send resp.id resp.body ctl]

/-- The handlers registered by the constructor of `dns_server`. -/
def dnsServer (ctl : Bool) : HandlerMap (Dispatch → List UserAct) :=
  process [⟨(), MessageId.getRouteRequest.toInt, getRouteHandler P route ctl⟩]

/-- A table of handlers as the parse loops use it: of the calls made so far, the last runs. -/
def handlersOf (t : HandlerMap (Dispatch → List UserAct)) : Handlers where
  registered id := (t.getHandler id).isSome
  script dispatched :=
    match dispatched.getLast? with
    | none => []
    | some m => ((t.getHandler m.id).map fun handler => handler m).getD []

/-- The server gets the message of `pull` on a connection, in the chunks of `es`, and answers. -/
def Answered (ctl : Bool) (modid cmdid : Int32) (c : TcpConn) (es : List ReadEvent) : Prop :=
  ∃ outs c', run (Endpoint.onChunk (TcpConn.handleRead ctl)) c es = .ok (outs, c') ∧
    ReactorBuf.contents c'.obuf =
      ReactorBuf.contents c.obuf ++ frame (answer P route modid cmdid)

/-! ## A message without a handler -/

section Ignored

variable {ctl : Bool} {m : Dispatch} {c : TcpConn} {p : List UInt8} {ev : ReadEvent}

/-- A chunk of a message without a handler leaves the output buffer as it is. -/
theorem onChunk_ignored (hm : m.Fits) (hc : c.Holds p)
    (hev : Endpoint.Served (TcpConn.handleRead ctl) [] c ev)
    (hreg : ev.handlers.registered m.id = false) {rest : List UInt8}
    (happ : p ++ ev.chunk ++ rest = frame m) :
    ∃ c', Endpoint.onChunk (TcpConn.handleRead ctl) c ev = .ok ([], c') ∧ c'.obuf = c.obuf ∧
      (rest ≠ [] → c'.Holds (p ++ ev.chunk)) := by
  obtain ⟨b, q, hb, hcont, heq⟩ := TcpConn.onChunk_eq hc hev
  have hload : Memory.load b.data 0 b.length = p ++ ev.chunk := by
    rw [← hcont, IoBuf.contents, hb.head_eq]
  by_cases hrest : rest = []
  · -- the message is complete: it is popped, and nothing is left for the next pass
    rw [hrest, List.append_nil] at happ
    have hlen : b.length = (frame m).length := by rw [← happ, ← hcont, IoBuf.length_contents]
    have hx : examine b.data 0 b.length = .message (frame m).length m := by
      have hfind := find_frame hm []
      rw [List.append_nil] at hfind
      rw [examine_eq_find, hload, happ, hfind]
    obtain ⟨ibuf, pool, hpass, hpopped, hibuf⟩ := Endpoint.parseBody_ignored (K := TcpConn.kind)
      (TcpConn.handleClose ctl) (h := ev.handlers) (fun _ => 0)
      (s := ⟨{ c with ibuf := some b, pool := q }, []⟩) rfl hx hlen.ge hreg
    rw [loop_next _ hpass, loop_leave _ (Endpoint.parseBody_wait _ _ fun b' hb' => ?_),
      ok_bind] at heq
    · exact ⟨_, heq, rfl, fun h => absurd hrest h⟩
    · have hzero : b'.length = 0 := by
        have hb' : ibuf = some b' := hb'
        rw [hb'] at hpopped
        have hl := congrArg List.length hpopped
        rw [List.length_drop, IoBuf.length_contents, ← hlen, Nat.sub_self] at hl
        rwa [ReactorBuf.length_contents] at hl
      rw [hzero]
      rfl
  · have hw : find (p ++ ev.chunk) = .wait := find_strictPrefix hm hrest happ
    rw [loop_leave _ (Endpoint.parseBody_wait _ _ fun b' hb' => ?_), ok_bind] at heq
    · refine ⟨_, heq, rfl, fun _ => ⟨ReactorBuf.front_adjust (r := some b) fun b' hb' => ?_, ?_⟩⟩
      · exact Option.some.inj hb' ▸ hb.length_le
      · rw [ReactorBuf.contents_adjust, ← hcont]
        rfl
    · obtain rfl : b = b' := Option.some.inj hb'
      rw [examine_eq_find, hload, hw]

/-- A message without a handler, in whatever chunks it comes, leaves the output buffer as it is. -/
theorem run_ignored (hm : m.Fits) {es : List ReadEvent}
    (hreg : ∀ ev ∈ es, ev.handlers.registered m.id = false) (hc : c.Holds p)
    (hes : p ++ (es.map ReadEvent.chunk).flatten = frame m)
    (hok : Along (Endpoint.onChunk (TcpConn.handleRead ctl))
      (Endpoint.Served (TcpConn.handleRead ctl) []) c es) :
    ∃ outs c', run (Endpoint.onChunk (TcpConn.handleRead ctl)) c es = .ok (outs, c') ∧
      c'.obuf = c.obuf := by
  induction es generalizing c p with
  | nil => exact ⟨[], c, rfl, rfl⟩
  | cons ev es ih =>
    rw [List.map_cons, List.flatten_cons, ← List.append_assoc] at hes
    obtain ⟨c₁, hcall, hobuf, hholds⟩ :=
      onChunk_ignored hm hc hok.1 (hreg ev List.mem_cons_self) hes
    cases es with
    | nil => exact ⟨[[]], c₁, run_cons_eq_ok.mpr ⟨[], c₁, [], hcall, rfl, rfl⟩, hobuf⟩
    | cons ev' es =>
      have hrest : ((ev' :: es).map ReadEvent.chunk).flatten ≠ [] := by
        rw [List.map_cons, List.flatten_cons]
        exact List.append_ne_nil_of_left_ne_nil ev'.chunk_ne _
      obtain ⟨outs, c', hrun, hobuf'⟩ := ih
        (fun ev'' h => hreg ev'' (List.mem_cons_of_mem _ h)) (hholds hrest) hes (hok.2 _ c₁ hcall)
      exact ⟨[] :: outs, c', run_cons_eq_ok.mpr ⟨[], c₁, outs, hcall, hrun, rfl⟩,
        hobuf'.trans hobuf⟩

end Ignored

/-! ## No question is answered -/

/-- The message of `pull` is not too long for the receiver. -/
theorem pull_fits (modid cmdid : Int32) : (pull modid cmdid).Fits := by
  have h := GetHostRequest.length_serialize_le { modid, cmdid }
  simp only [Dispatch.Fits, pull, messageMaxSize, messageHeaderSize]
  omega

/-- The server has no handler for the id that `pull` sends. -/
theorem registered_pull (ctl : Bool) (modid cmdid : Int32) :
    (handlersOf (dnsServer P route ctl)).registered (pull modid cmdid).id = false := rfl

/-- **No question is answered**: the server gets the message of `pull` for whatever module and
command, with whatever routes, on a connection that has nothing unread, and has not answered it when
it has read it. -/
theorem pull_not_answered (ctl : Bool) (modid cmdid : Int32) {c : TcpConn} (hc : c.ibuf = none)
    {es : List ReadEvent} (hes : (es.map ReadEvent.chunk).flatten = frame (pull modid cmdid))
    (hserver : ∀ ev ∈ es, ∃ ctl, ev.handlers = handlersOf (dnsServer P route ctl))
    (hok : Along (Endpoint.onChunk (TcpConn.handleRead ctl))
      (Endpoint.Served (TcpConn.handleRead ctl) []) c es) :
    ¬ Answered P route ctl modid cmdid c es := by
  have hreg : ∀ ev ∈ es, ev.handlers.registered (pull modid cmdid).id = false := by
    intro ev hev
    obtain ⟨ctl', h⟩ := hserver ev hev
    rw [h]
    exact registered_pull P route ctl' modid cmdid
  have hholds : c.Holds [] := ⟨hc ▸ ReactorBuf.front_none, hc ▸ rfl⟩
  obtain ⟨outs, c', hrun, hobuf⟩ := run_ignored (pull_fits modid cmdid) hreg hholds hes hok
  rintro ⟨outs', c'', hrun', hanswer⟩
  obtain ⟨-, rfl⟩ : outs = outs' ∧ c' = c'' := by
    rw [hrun] at hrun'
    exact Prod.mk.inj (Except.ok.inj hrun')
  rw [hobuf] at hanswer
  exact frame_ne_nil _ (List.self_eq_append_right.mp hanswer)

/-- The generated code, right as long as there are no hosts to send. -/
def noHosts : Protobuf where
  parseGetRouteRequest _ := ⟨0, 1⟩
  serializeGetRouteResponse resp :=
    varintField 1 resp.modid.toInt64.toUInt64 ++ varintField 2 resp.cmdid.toInt64.toUInt64

/-- The message of `pull` for command 2 of module 1, in one chunk. -/
def pullEvent : ReadEvent where
  chunk := frame (pull 1 2)
  chunk_ne := frame_ne_nil _
  interruptions := 0
  handlers := handlersOf (dnsServer noHosts (fun _ _ => ∅) true)
  pool := .ofCounts fun _ => 2

theorem pull_not_answered_once :
    ¬ Answered noHosts (fun _ _ => ∅) true 1 2
      (TcpConn.new 1 5 {} (fun _ => none) (.ofCounts fun _ => 2)) [pullEvent] :=
  pull_not_answered noHosts (fun _ _ => ∅) true 1 2 rfl (List.append_nil _)
    (fun _ hev => ⟨true, congrArg ReadEvent.handlers (List.mem_singleton.mp hev)⟩)
    (along_cons (.of_eval (fun _ h => absurd h List.not_mem_nil) (by decide) (by decide))
      (along_nil _ _))

/-- Command 2 of module 1 is asked for, and the server sends nothing. -/
theorem not_pull_answered :
    ¬ ∀ (P : Protobuf) (route : Int32 → Int32 → Finset UInt64) (ctl : Bool) (modid cmdid : Int32)
      (c : TcpConn) (es : List ReadEvent), c.ibuf = none →
      (es.map ReadEvent.chunk).flatten = frame (pull modid cmdid) →
      (∀ ev ∈ es, ∃ ctl, ev.handlers = handlersOf (dnsServer P route ctl)) →
      Along (Endpoint.onChunk (TcpConn.handleRead ctl))
        (Endpoint.Served (TcpConn.handleRead ctl) []) c es →
      Answered P route ctl modid cmdid c es := by
  intro hall
  obtain ⟨outs, c', hrun, hanswer⟩ := hall noHosts (fun _ _ => ∅) true 1 2
    (TcpConn.new 1 5 {} (fun _ => none) (.ofCounts fun _ => 2)) [pullEvent] rfl (List.append_nil _)
    (fun _ hev => ⟨true, congrArg ReadEvent.handlers (List.mem_singleton.mp hev)⟩)
    (along_cons (.of_eval (fun _ h => absurd h List.not_mem_nil) (by decide) (by decide))
      (along_nil _ _))
  have hsent : ((run (Endpoint.onChunk (TcpConn.handleRead true))
      (TcpConn.new 1 5 {} (fun _ => none) (.ofCounts fun _ => 2)) [pullEvent]).map
        fun r => ReactorBuf.contents r.2.obuf).toOption = some [] := by decide
  rw [hrun] at hsent
  have hempty : ReactorBuf.contents c'.obuf = [] := Option.some.inj hsent
  rw [hempty] at hanswer
  exact List.append_ne_nil_of_right_ne_nil _ (frame_ne_nil _) hanswer.symm

end Lars.Agent
