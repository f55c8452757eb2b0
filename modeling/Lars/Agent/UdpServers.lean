import Lars.Agent.Pairs
import Lars.Agent.Pull
import Lars.Proto.Messages
import Lars.Reactor.Udp

/-!
# The agent serves hosts

The UDP servers of the agent (`lars_agent/src/agent_udp_server.cc`) register `get_host_handler`,
each for its own element of `g_route_lbs`, in the one table of handlers. It parses a request, asks
its element for a host, and sends a response to where the last datagram has come from. A pair that
is new is asked for by a task for the loop of `g_dns_client`
(`lars_agent/include/agent_dns_client.h`), which starts after the servers; the task keeps a pointer
to the `load_balance` of the pair. The threads take turns in steps: a pass of `do_read`, a call of
`update_host`, a task. The handler of routes from the DNS server is not considered here.

The three servers share one `route_lb`, which has no lock (there is a `TODO` for one in
`lars_agent/src/route_lb.cc`): calls of `get_host` and `update_host` that overlap race on its maps.
The runs here are those in which no two of them do.

* The process goes on unless a new pair is looked up before `g_dns_client` has a loop, or a task
  runs before it has a client or after the `load_balance` has been deleted (`Safe`).
* Till then every request dispatched is answered at once, to its sender, under its number and its
  ids, and with the code for a pair that does not exist; it is the table of the server that has
  started last that keeps its pair; and the DNS server is asked for the new pairs, each once, in
  their order (`requests_answered`).
-/

namespace Lars.Agent

open Reactor Machine Api WireFormat

/-! ## The servers -/

/-- What a step shows: a call of a handler, the datagram sent by it with its destination, and the
message given to `m_client->send`. -/
structure AgentShown (α : Type) where
  call : Option (UdpCall (Fin 3)) := none
  sent : Option (α × List UInt8) := none
  question : Option Dispatch := none

/-- What happens in the agent. -/
inductive AgentEvent (α : Type)
  /-- `run_udp_server(i)` up to its loop; `addr` is the address cleared. -/
  | start (i : Fin 3) (addr : α)
  /-- `dns_client::start` sets `m_loop`. -/
  | startLoop
  /-- `dns_client::start` sets `m_client`. -/
  | startClient
  /-- A pass of the loop of `do_read` of server `i`. `u` is the memory of an entry that is created,
  `hInfo` that of the `host_info` in the handler, and `ok` says whether `sendto` succeeds. -/
  | read (i : Fin 3) (answer : RecvAnswer α) (u : Uninitialized) (hInfo : HostInfo) (ok : Bool)
  /-- `g_route_lbs[j]->update_host`. -/
  | updateHost (j : Fin 3) (u : Uninitialized) (modid cmdid : Int32) (hostInfos : List HostInfo)
  /-- The loop of `g_dns_client` runs a task. -/
  | runTask

/-- The agent: the UDP servers that have started, the table of handlers, where the handler of a
server is that of the element of `g_route_lbs` it is bound to, `g_route_lbs`, and `g_dns_client`. -/
structure AgentServers (α : Type) where
  servers : Fin 3 → Option (UdpEndpoint α)
  handlers : HandlerMap (Fin 3)
  gRouteLbs : Fin 3 → RouteLb
  /-- The tasks for `m_loop`, each the table and the object that it captures; `none` as long as
  `m_loop` is null. -/
  tasks : Option (List (Fin 3 × ℕ))
  /-- `m_client` is not null. -/
  client : Bool

variable (R : ProtobufRuntime)

/-- What `get_host_handler` does up to the response. -/
def RouteLb.getHostResponse (rLb : RouteLb) (u : Uninitialized) (hInfo : HostInfo)
    (data : List UInt8) : Except Halt (GetHostResponse × RouteLb) := do
  let req := ((GetHostRequest.code R).parse data).2
  let modid := req.modid
  let cmdid := req.cmdid
  let seq := req.seq.toInt32
  let ((ret, hInfo), rLb) ← rLb.getHost u modid cmdid hInfo
  let host : Dns.HostInfo :=
    if ret = LarsRetCode.succ.toInt then ⟨hInfo.ip.toInt32, hInfo.port⟩ else ⟨0, 0⟩
  let resp : GetHostResponse := { modid, cmdid, seq := seq.toUInt32, retcode := ret }
  .ok ({ resp with host := some ((Dns.HostInfo.code R).copyFrom resp.mutableHost host) }, rLb)

namespace AgentServers

variable {α : Type}

/-- The agent after `init_lb_agent`. -/
def init : AgentServers α where
  servers _ := none
  handlers := {}
  gRouteLbs i := RouteLb.new (Int32.ofNat (i + 1))
  tasks := none
  client := false

/-- `get_host_handler`, called for `conn` with a body received. -/
def getHostHandler (rLb : RouteLb) (u : Uninitialized) (hInfo : HostInfo) (ok : Bool)
    (conn : UdpEndpoint α) (data : List UInt8) :
    Except Halt (Option (α × List UInt8) × UdpEndpoint α × RouteLb) := do
  let (resp, rLb) ← rLb.getHostResponse R u hInfo data
  let ((_, sent), conn) ← conn.send MessageId.getHostResponse.toInt
    ((Api.GetHostResponse.code R).serialize resp) ok
  .ok (sent, conn, rLb)

/-- What a call has given to `g_dns_client`. -/
def given (s : AgentServers α) (j : Fin 3) (rLb : RouteLb) : List (Fin 3 × ℕ) :=
  (rLb.pulls.drop (s.gRouteLbs j).pulls.length).map (j, ·)

/-- Table `j` is `rLb` after a call, and tasks have been added. -/
def stored (s : AgentServers α) (j : Fin 3) (rLb : RouteLb) : AgentServers α :=
  { s with
    gRouteLbs := Function.update s.gRouteLbs j rLb
    tasks := s.tasks.map (· ++ s.given j rLb) }

/-- Table `j` after a call, in which `add_task` has used `m_loop` if there are tasks to add. -/
def store (s : AgentServers α) (j : Fin 3) (rLb : RouteLb) : Except Halt (AgentServers α) :=
  if s.given j rLb ≠ [] ∧ s.tasks = none then .error .undefined else .ok (s.stored j rLb)

/-- A pass of `do_read` of server `i`, which is `e`, with a datagram. -/
def receive (s : AgentServers α) (i : Fin 3) (e : UdpEndpoint α) (src : α) (d : List UInt8)
    (u : Uninitialized) (hInfo : HostInfo) (ok : Bool) :
    Except Halt (AgentShown α × AgentServers α) := do
  let e := { e with readBuf := UdpEndpoint.receive d e.readBuf, addr := src }
  match UdpEndpoint.dispatch s.handlers (d.take udpBufSize).length e.readBuf with
  | none => .ok ({}, { s with servers := Function.update s.servers i (some e) })
  | some call =>
    let (sent, e, rLb) ←
      getHostHandler R (s.gRouteLbs call.handler) u hInfo ok e call.body
    let s ← s.store call.handler rLb
    .ok ({ call, sent }, { s with servers := Function.update s.servers i (some e) })

/-- A task of `pull`: it reads the object it has captured, and sends through `m_client`. -/
def task (s : AgentServers α) (j : Fin 3) (p : ℕ) : Except Halt Dispatch :=
  match (s.gRouteLbs j).objects p with
  | none => .error .undefined
  | some lb => if s.client then .ok (pull lb.mModid lb.mCmdid) else .error .undefined

/-- What the agent does. A server that has not started reads nothing. -/
def step (s : AgentServers α) : AgentEvent α → Except Halt (AgentShown α × AgentServers α)
  | .start i addr => .ok ({}, { s with
      servers := Function.update s.servers i (some (.new addr))
      handlers := s.handlers.registerHandler MessageId.getHostRequest.toInt i })
  | .read i (.datagram src d) u hInfo ok =>
    match s.servers i with
    | some e => s.receive R i e src d u hInfo ok
    | none => .ok ({}, s)
  | .read _ _ _ _ _ => .ok ({}, s)
  | .updateHost j u modid cmdid hostInfos => do
    let (_, rLb) ← (s.gRouteLbs j).updateHost u modid cmdid hostInfos
    let s ← s.store j rLb
    .ok ({}, s)
  | .startLoop => .ok ({}, { s with tasks := some [] })
  | .startClient => .ok ({}, { s with client := true })
  | .runTask =>
    match s.tasks with
    | none | some [] => .ok ({}, s)
    | some ((j, p) :: tasks) => do
      let question ← s.task j p
      .ok ({ question := some question }, { s with tasks := some tasks })

/-- What can happen: a server reads when it has started, `dns_client::start` is called once, and a
task runs when there is one. -/
def Possible (s : AgentServers α) : AgentEvent α → Prop
  | .read i _ _ _ _ => s.servers i ≠ none
  | .startLoop => s.tasks = none
  | .startClient => s.tasks ≠ none
  | .runTask => ∃ t tasks, s.tasks = some (t :: tasks)
  | _ => True

/-- If the pair is new to table `j`, `g_dns_client` has a loop. -/
def CanAsk (s : AgentServers α) (j : Fin 3) (modid cmdid : Int32) : Prop :=
  (s.gRouteLbs j).entry modid cmdid = none → s.tasks ≠ none

end AgentServers

/-! ## What requests get -/

/-- The message with a request. -/
def hostQuestion (req : GetHostRequest) : Dispatch :=
  ⟨MessageId.getHostRequest.toInt, (GetHostRequest.code R).serialize req⟩

/-- The response to a request that there is no host for. -/
def noHost (req : GetHostRequest) : GetHostResponse :=
  ⟨req.seq, req.modid, req.cmdid, LarsRetCode.noexist.toInt, some ⟨0, 0⟩⟩

/-- The message with that response. -/
def hostAnswer (req : GetHostRequest) : Dispatch :=
  ⟨MessageId.getHostResponse.toInt, (Api.GetHostResponse.code R).serialize (noHost req)⟩

/-- The request in the body of a call, as the handler takes it. -/
def requestIn (call : UdpCall (Fin 3)) : GetHostRequest :=
  ((GetHostRequest.code R).parse call.body).2

namespace AgentServers

/-- What the process goes on after: a lookup of a new pair when `g_dns_client` has a loop, and a
task when it has a client and the object of the task is there. -/
def Safe {α : Type} (s : AgentServers α) : AgentEvent α → Prop
  | .read i (.datagram _ d) _ _ _ =>
    ∀ e ∈ s.servers i, ∀ call ∈ UdpEndpoint.dispatch s.handlers (d.take udpBufSize).length
      (UdpEndpoint.receive d e.readBuf),
      s.CanAsk call.handler (requestIn R call).modid (requestIn R call).cmdid
  | .updateHost j _ modid cmdid _ => s.CanAsk j modid cmdid
  | .runTask => ∀ j p tasks, s.tasks = some ((j, p) :: tasks) →
    (s.gRouteLbs j).objects p ≠ none ∧ s.client = true
  | _ => True

end AgentServers

/-- What is sent in a step. -/
def answerTo {α : Type} : AgentEvent α → Option (UdpCall (Fin 3)) → Option (α × List UInt8)
  | .read _ (.datagram src _) _ _ true, some call =>
    some (src, frame (hostAnswer R (requestIn R call)))
  | _, _ => none

/-- A step sends the answer to the request it dispatches, to its sender, and nothing else; a
datagram with a request is dispatched as the request. -/
structure Replied {α : Type} (ev : AgentEvent α) (o : AgentShown α) : Prop where
  sent : o.sent = answerTo R ev o.call
  request : ∀ i src req u hInfo ok,
    ev = .read i (.datagram src (frame (hostQuestion R req))) u hInfo ok →
      ∃ call ∈ o.call, (GetHostRequest.code R).parse call.body = (true, req)

/-- What the agent is for, as long as no hosts come: the server that has started last, the pairs of
every table, all pairs that have been asked for, and those that the DNS server is yet to be asked
for. -/
structure AgentPairs where
  last : Option (Fin 3) := none
  pairs : Fin 3 → Pairs := fun _ => {}
  asked : List (Int32 × Int32) := []
  waiting : List (Int32 × Int32) := []

namespace AgentPairs

/-- A call for a pair of table `i`. -/
def change (a : AgentPairs) (i : Fin 3) (f : Pairs → Pairs) : AgentPairs :=
  let new := (f (a.pairs i)).asked.drop (a.pairs i).asked.length
  { a with
    pairs := Function.update a.pairs i (f (a.pairs i))
    asked := a.asked ++ new
    waiting := a.waiting ++ new }

/-- The pairs after a step: those of requests are looked up in the table of the last server. -/
def next {α : Type} (a : AgentPairs) : AgentEvent α × AgentShown α → AgentPairs
  | (.start i _, _) => { a with last := some i }
  | (.updateHost j u modid cmdid hostInfos, _) =>
    a.change j fun b => b.call (.updateHost u modid cmdid hostInfos)
  | (.read .., o) =>
    match o.call, a.last with
    | some call, some i =>
      a.change i fun b => b.lookUp ((requestIn R call).modid, (requestIn R call).cmdid)
    | _, _ => a
  | (.runTask, _) => { a with waiting := a.waiting.tail }
  | (.startLoop, _) | (.startClient, _) => a

/-- The message that asks for a pair. -/
def question (pair : Int32 × Int32) : Dispatch := pull pair.1 pair.2

/-- The pairs asked for are those of the messages sent and those that wait. -/
def Handed (a : AgentPairs) (sent : List Dispatch) : Prop :=
  sent ++ a.waiting.map question = a.asked.map question

theorem Handed.change {a : AgentPairs} {sent : List Dispatch} (h : a.Handed sent) (i : Fin 3)
    (f : Pairs → Pairs) : (a.change i f).Handed sent := by
  unfold Handed AgentPairs.change at *
  dsimp only
  rw [List.map_append, List.map_append, ← List.append_assoc, h]

end AgentPairs

theorem length_hostAnswer_le (req : GetHostRequest) :
    messageHeaderSize + (hostAnswer R req).body.length ≤ udpBufSize := by
  have hseq := length_varintField_le 1 req.seq.toUInt64
  have hmodid := length_varintField_le 2 req.modid.toInt64.toUInt64
  have hcmdid := length_varintField_le 3 req.cmdid.toInt64.toUInt64
  change messageHeaderSize + (varintField 1 req.seq.toUInt64 ++
    varintField 2 req.modid.toInt64.toUInt64 ++ varintField 3 req.cmdid.toInt64.toUInt64 ++
      [32, 3] ++ [42, 0]).length ≤ udpBufSize
  simp only [List.length_append, List.length_cons, List.length_nil, messageHeaderSize, udpBufSize]
  omega

theorem length_hostQuestion_le (req : GetHostRequest) :
    (frame (hostQuestion R req)).length ≤ udpBufSize := by
  have hlen : (hostQuestion R req).body.length ≤ 33 := req.length_serialize_le
  rw [length_frame]
  simp only [messageHeaderSize, udpBufSize]
  omega

theorem parse_hostQuestion (req : GetHostRequest) :
    (GetHostRequest.code R).parse (hostQuestion R req).body = (true, req) := by
  have hlen : ((GetHostRequest.code R).serialize req).length ≤ 33 := req.length_serialize_le
  exact Message.parse_serialize (Nat.le_trans hlen (by decide))

variable {R}

/-- **The response** is that there is no host. -/
theorem RouteLb.Keeps.getHostResponse {rLb : RouteLb} {a : Pairs} (h : rLb.Keeps a)
    (u : Uninitialized) (hInfo : HostInfo) (data : List UInt8) {req : GetHostRequest}
    (hreq : ((GetHostRequest.code R).parse data).2 = req) :
    ∃ rLb', rLb.getHostResponse R u hInfo data =
        .ok (noHost req, rLb') ∧
      rLb'.Keeps (a.lookUp (req.modid, req.cmdid)) := by
  obtain ⟨rLb', hget, hkeeps⟩ := h.getHost u req.modid req.cmdid hInfo
  refine ⟨rLb', ?_, hkeeps⟩
  have hseq : req.seq.toInt32.toUInt32 = req.seq := UInt32.toUInt32_toInt32 _
  unfold RouteLb.getHostResponse
  rw [hreq]
  dsimp only
  rw [hget, ok_bind, hseq]
  rfl

namespace AgentServers

variable {α : Type}

/-- **The handler** sends the response to the address of the last datagram. -/
theorem getHostHandler_eq {rLb : RouteLb} {a : Pairs} (h : rLb.Keeps a) (u : Uninitialized)
    (hInfo : HostInfo) (ok : Bool) (conn : UdpEndpoint α) (call : UdpCall (Fin 3)) :
    ∃ conn' rLb', getHostHandler R rLb u hInfo ok conn call.body =
        .ok (if ok then some (conn.addr, frame (hostAnswer R (requestIn R call))) else none, conn',
          rLb') ∧
      rLb'.Keeps (a.lookUp ((requestIn R call).modid, (requestIn R call).cmdid)) := by
  obtain ⟨rLb', hresp, hkeeps⟩ := h.getHostResponse u hInfo call.body (rfl : _ = requestIn R call)
  obtain ⟨writeBuf, hsend⟩ :=
    UdpEndpoint.send_of_le _ (length_hostAnswer_le R (requestIn R call)) ok conn
  have hsend : conn.send MessageId.getHostResponse.toInt
      ((Api.GetHostResponse.code R).serialize (noHost (requestIn R call))) ok = _ := hsend
  refine ⟨{ conn with writeBuf }, rLb', ?_, hkeeps⟩
  unfold getHostHandler
  rw [hresp, ok_bind]
  dsimp only
  rw [hsend, ok_bind]
  cases ok <;> rfl

/-- A task has captured the object of a pair. -/
def TaskFor (a : AgentPairs) (t : Fin 3 × ℕ) (pair : Int32 × Int32) : Prop :=
  (a.pairs t.1).asked[t.2]? = some pair

/-- The agent keeps the pairs: the handler of requests is that of the server that has started last,
there is no other, every table keeps its pairs, and the tasks are for the pairs that wait. -/
structure Keeps (s : AgentServers α) (a : AgentPairs) : Prop where
  handler : s.handlers.getHandler MessageId.getHostRequest.toInt = a.last
  only : ∀ id ≠ MessageId.getHostRequest.toInt, s.handlers.getHandler id = none
  started : ∀ i, s.servers i ≠ none → a.last ≠ none
  tables : ∀ j, (s.gRouteLbs j).Keeps (a.pairs j)
  tasks : List.Forall₂ (TaskFor a) (s.tasks.getD []) a.waiting

theorem keeps_init : (init : AgentServers α).Keeps {} where
  handler := rfl
  only _ _ := rfl
  started _ h := absurd rfl h
  tables _ := RouteLb.keeps_new _
  tasks := .nil

/-- What is dispatched is a request, and the server started last is to handle it. -/
theorem Keeps.of_dispatch {s : AgentServers α} {a : AgentPairs} (h : s.Keeps a) {n : ℕ}
    {buf : UdpBuf} {call : UdpCall (Fin 3)}
    (hcall : UdpEndpoint.dispatch s.handlers n buf = some call) : a.last = some call.handler := by
  unfold UdpEndpoint.dispatch at hcall
  dsimp only at hcall
  split_ifs at hcall
  obtain ⟨i, hi, rfl⟩ := Option.map_eq_some_iff.mp hcall
  by_cases hid : (headerAt buf 0).id = MessageId.getHostRequest.toInt
  · rw [← h.handler, ← hid]
    exact hi
  · rw [h.only _ hid] at hi
    cases hi

/-- A request is dispatched, whatever is left in the buffer. -/
theorem Keeps.dispatch_question {s : AgentServers α} {a : AgentPairs} (h : s.Keeps a)
    (hlast : a.last ≠ none) (req : GetHostRequest) (buf : UdpBuf) :
    ∃ call, UdpEndpoint.dispatch s.handlers ((frame (hostQuestion R req)).take udpBufSize).length
        (UdpEndpoint.receive (frame (hostQuestion R req)) buf) = some call ∧
      call.body = (hostQuestion R req).body := by
  obtain ⟨i, hi⟩ := Option.ne_none_iff_exists'.mp hlast
  have hhandler : s.handlers.getHandler (hostQuestion R req).id = some i := h.handler.trans hi
  rw [UdpEndpoint.dispatch_frame _ (length_hostQuestion_le R req), hhandler]
  exact ⟨_, rfl, rfl⟩

/-- A call asks for the pair if it is new. -/
theorem Keeps.given_eq {s : AgentServers α} {a : AgentPairs} (h : s.Keeps a) {j : Fin 3}
    {rLb : RouteLb} {b : Pairs} {pair : Int32 × Int32} (hrLb : rLb.Keeps b)
    (hasked : b.asked = (a.pairs j).asked ++ if pair ∈ (a.pairs j).known then [] else [pair]) :
    s.given j rLb = if pair ∈ (a.pairs j).known then [] else [(j, (a.pairs j).asked.length)] := by
  have hlen : (s.gRouteLbs j).pulls.length = (a.pairs j).asked.length := by
    rw [(h.tables j).pulls, List.length_range, (h.tables j).created]
  rw [given, hrLb.pulls, hrLb.created, hlen, hasked]
  split_ifs
  · rw [List.append_nil, List.drop_eq_nil_of_le List.length_range.le]
    rfl
  · rw [List.length_append, List.length_singleton, List.range_succ,
      List.drop_left' List.length_range]
    rfl

/-- Pairs asked for before stay where they are. -/
theorem TaskFor.change {a : AgentPairs} {j : Fin 3} {f : Pairs → Pairs} {l : List (Int32 × Int32)}
    (hasked : (f (a.pairs j)).asked = (a.pairs j).asked ++ l) {t : Fin 3 × ℕ}
    {pair : Int32 × Int32} (h : TaskFor a t pair) : TaskFor (a.change j f) t pair := by
  unfold TaskFor AgentPairs.change
  dsimp only
  rw [Function.update_apply]
  split_ifs with hj
  · have hold : (a.pairs j).asked[t.2]? = some pair := hj ▸ h
    rw [hasked, List.getElem?_append_left (List.getElem?_eq_some_iff.mp hold).1, hold]
  · exact h

/-- **A call of a table** is a call for a pair, which is asked for if it is new. -/
theorem Keeps.stored {s : AgentServers α} {a : AgentPairs} (h : s.Keeps a) {j : Fin 3}
    {rLb : RouteLb} {f : Pairs → Pairs} {pair : Int32 × Int32}
    (hrLb : rLb.Keeps (f (a.pairs j)))
    (hasked : (f (a.pairs j)).asked =
      (a.pairs j).asked ++ if pair ∈ (a.pairs j).known then [] else [pair])
    (hloop : s.given j rLb = [] ∨ s.tasks ≠ none) : (s.stored j rLb).Keeps (a.change j f) := by
  refine ⟨h.handler, h.only, h.started, fun j' => ?_, ?_⟩
  · change (Function.update s.gRouteLbs j rLb j').Keeps (Function.update a.pairs j _ j')
    rw [Function.update_apply, Function.update_apply]
    split_ifs with hj
    · exact hrLb
    · exact h.tables j'
  · have hnew : (f (a.pairs j)).asked.drop (a.pairs j).asked.length =
        if pair ∈ (a.pairs j).known then [] else [pair] := by
      rw [hasked, List.drop_left]
    have hold := h.tasks.imp fun t pair ht => TaskFor.change (f := f) hasked ht
    change List.Forall₂ _ ((s.tasks.map (· ++ s.given j rLb)).getD []) (a.waiting ++ _)
    rw [hnew]
    have hgiven := h.given_eq hrLb hasked
    split_ifs at hgiven ⊢ with hknown
    · rw [hgiven, List.append_nil]
      cases htasks : s.tasks with
      | none => rwa [htasks] at hold
      | some tasks =>
        rw [htasks] at hold
        rwa [Option.map_some, List.append_nil]
    · obtain ⟨tasks, htasks⟩ := Option.ne_none_iff_exists'.mp
        (hloop.resolve_left (by rw [hgiven]; exact List.cons_ne_nil _ _))
      rw [htasks] at hold
      rw [htasks, hgiven, Option.map_some, Option.getD_some]
      refine List.rel_append hold (.cons ?_ .nil)
      change (Function.update a.pairs j _ j).asked[_]? = _
      rw [Function.update_self, hasked, if_neg hknown, List.getElem?_concat_length]

/-- The table is changed, unless there are tasks to add and no loop. -/
theorem Keeps.store {s : AgentServers α} {a : AgentPairs} (h : s.Keeps a) {j : Fin 3}
    {rLb : RouteLb} {f : Pairs → Pairs} {modid cmdid : Int32}
    (hrLb : rLb.Keeps (f (a.pairs j)))
    (hasked : (f (a.pairs j)).asked = (a.pairs j).asked ++
      if (modid, cmdid) ∈ (a.pairs j).known then [] else [(modid, cmdid)]) :
    (s.CanAsk j modid cmdid →
      s.store j rLb = .ok (s.stored j rLb) ∧ (s.stored j rLb).Keeps (a.change j f)) ∧
    (¬ s.CanAsk j modid cmdid → s.store j rLb = .error .undefined) := by
  have hnew : (s.gRouteLbs j).entry modid cmdid = none ↔ s.given j rLb ≠ [] := by
    rw [h.given_eq hrLb hasked, ← not_iff_not, ← ne_eq, ← (h.tables j).known]
    split_ifs with hknown
    · simp [hknown]
    · simp [hknown]
  unfold CanAsk AgentServers.store
  rw [hnew]
  constructor
  · intro hask
    rw [if_neg fun hand => hask hand.1 hand.2]
    exact ⟨rfl, h.stored hrLb hasked (or_iff_not_imp_left.mpr hask)⟩
  · intro hask
    obtain ⟨hgiven, htasks⟩ := Classical.not_imp.mp hask
    rw [if_pos ⟨hgiven, not_not.mp htasks⟩]

/-- A step that has been taken: what is sent, and the pairs after it. -/
structure Goes (R : ProtobufRuntime) (a : AgentPairs) (ev : AgentEvent α) (o : AgentShown α)
    (s' : AgentServers α) : Prop where
  replied : Replied R ev o
  keeps : s'.Keeps (a.next R (ev, o))
  handed {sent : List Dispatch} (h : a.Handed sent) :
    (a.next R (ev, o)).Handed (sent ++ o.question.toList)

/-- A datagram for which nothing is dispatched. -/
theorem Keeps.receive_none {s : AgentServers α} {a : AgentPairs} (h : s.Keeps a) {i : Fin 3}
    {e : UdpEndpoint α} (he : s.servers i = some e) (src : α) {d : List UInt8} (u : Uninitialized)
    (hInfo : HostInfo) (ok : Bool)
    (hcall : UdpEndpoint.dispatch s.handlers (d.take udpBufSize).length
      (UdpEndpoint.receive d e.readBuf) = none) :
    ∃ o s', s.receive R i e src d u hInfo ok = .ok (o, s') ∧
      Goes R a (.read i (.datagram src d) u hInfo ok) o s' := by
  have hlast : a.last ≠ none := h.started i (by simp [he])
  refine ⟨{}, { s with servers := Function.update s.servers i (some
    { e with readBuf := UdpEndpoint.receive d e.readBuf, addr := src }) }, ?_,
    ⟨?_, ?_⟩, ⟨h.handler, h.only, fun _ _ => hlast, h.tables, h.tasks⟩, fun hsent => ?_⟩
  · unfold AgentServers.receive
    dsimp only
    rw [hcall]
  · cases ok <;> rfl
  · rintro _ _ req _ _ _ ⟨⟩
    obtain ⟨call, hquestion, -⟩ := h.dispatch_question hlast req e.readBuf
    cases hquestion.symm.trans hcall
  · rwa [Option.toList_none, List.append_nil]

/-- **A call** is answered to where the datagram has come from, if the pair can be asked for. -/
theorem Keeps.receive_some {s : AgentServers α} {a : AgentPairs} (h : s.Keeps a) {i : Fin 3}
    {e : UdpEndpoint α} (he : s.servers i = some e) (src : α) {d : List UInt8} (u : Uninitialized)
    (hInfo : HostInfo) (ok : Bool) {call : UdpCall (Fin 3)}
    (hcall : UdpEndpoint.dispatch s.handlers (d.take udpBufSize).length
      (UdpEndpoint.receive d e.readBuf) = some call) :
    (s.CanAsk call.handler (requestIn R call).modid (requestIn R call).cmdid →
      ∃ o s', s.receive R i e src d u hInfo ok = .ok (o, s') ∧
        Goes R a (.read i (.datagram src d) u hInfo ok) o s') ∧
    (¬ s.CanAsk call.handler (requestIn R call).modid (requestIn R call).cmdid →
      s.receive R i e src d u hInfo ok = .error .undefined) := by
  have hlast : a.last ≠ none := h.started i (by simp [he])
  obtain ⟨conn', rLb', hhandler, hkeeps⟩ := getHostHandler_eq (R := R) (h.tables call.handler) u
    hInfo ok { e with readBuf := UdpEndpoint.receive d e.readBuf, addr := src } call
  have hreceive : s.receive R i e src d u hInfo ok = (s.store call.handler rLb' >>= fun s' =>
      .ok (⟨call, if ok then some (src, frame (hostAnswer R (requestIn R call))) else none, none⟩,
        { s' with servers := Function.update s'.servers i (some conn') })) := by
    unfold AgentServers.receive
    dsimp only
    rw [hcall]
    dsimp only
    rw [hhandler]
    rfl
  obtain ⟨hstore, hfail⟩ := h.store
    (f := fun b => b.lookUp ((requestIn R call).modid, (requestIn R call).cmdid)) hkeeps
    (Pairs.asked_lookUp _ _)
  rw [hreceive]
  refine ⟨fun hask => ?_, fun hask => by rw [hfail hask]; rfl⟩
  obtain ⟨hstored, hkeeps'⟩ := hstore hask
  rw [hstored, ok_bind]
  have hnext : ∀ sent, a.next R (.read i (.datagram src d) u hInfo ok, ⟨call, sent, none⟩) =
      a.change call.handler fun b =>
        b.lookUp ((requestIn R call).modid, (requestIn R call).cmdid) := by
    intro sent
    rw [AgentPairs.next]
    dsimp only
    rw [h.of_dispatch hcall]
  refine ⟨_, _, rfl, ⟨?_, ?_⟩, ?_, fun hsent => ?_⟩
  · cases ok <;> rfl
  · rintro _ _ req _ _ _ ⟨⟩
    obtain ⟨call', hquestion, hbody⟩ := h.dispatch_question hlast req e.readBuf (R := R)
    cases hquestion.symm.trans hcall
    exact ⟨call, rfl, hbody ▸ parse_hostQuestion R req⟩
  · rw [hnext]
    exact ⟨hkeeps'.handler, hkeeps'.only, fun _ _ => hlast, hkeeps'.tables, hkeeps'.tasks⟩
  · rw [hnext, Option.toList_none, List.append_nil]
    exact hsent.change _ _

/-- **A datagram**: the process goes on if it is safe. -/
theorem Keeps.receive {s : AgentServers α} {a : AgentPairs} (h : s.Keeps a) {i : Fin 3}
    {e : UdpEndpoint α} (he : s.servers i = some e) (src : α) (d : List UInt8) (u : Uninitialized)
    (hInfo : HostInfo) (ok : Bool) :
    (s.Safe R (.read i (.datagram src d) u hInfo ok) →
      ∃ o s', s.receive R i e src d u hInfo ok = .ok (o, s') ∧
        Goes R a (.read i (.datagram src d) u hInfo ok) o s') ∧
    (¬ s.Safe R (.read i (.datagram src d) u hInfo ok) →
      s.receive R i e src d u hInfo ok = .error .undefined) := by
  cases hcall : UdpEndpoint.dispatch s.handlers (d.take udpBufSize).length
      (UdpEndpoint.receive d e.readBuf) with
  | none =>
    refine ⟨fun _ => h.receive_none he src u hInfo ok hcall, fun hnot => absurd ?_ hnot⟩
    intro e' he' call hcall'
    obtain rfl : e = e' := Option.some.inj (he.symm.trans he')
    cases hcall.symm.trans hcall'
  | some call =>
    have hsafe : s.Safe R (.read i (.datagram src d) u hInfo ok) ↔
        s.CanAsk call.handler (requestIn R call).modid (requestIn R call).cmdid := by
      constructor
      · exact fun hsafe => hsafe e he call hcall
      · intro hask e' he' call' hcall'
        obtain rfl : e = e' := Option.some.inj (he.symm.trans he')
        obtain rfl : call = call' := Option.some.inj (hcall.symm.trans hcall')
        exact hask
    rw [hsafe]
    exact h.receive_some he src u hInfo ok hcall

/-- **A task** asks for the pair that has waited longest, if its object is there. -/
theorem Keeps.runTask {s : AgentServers α} {a : AgentPairs} (h : s.Keeps a)
    (htask : s.Possible .runTask) :
    (s.Safe R .runTask → ∃ o s', s.step R .runTask = .ok (o, s') ∧ Goes R a .runTask o s') ∧
    (¬ s.Safe R .runTask → ∃ t, s.step R .runTask = .error t) := by
  obtain ⟨⟨j, p⟩, tasks, htasks⟩ := htask
  have hwaiting := h.tasks
  rw [htasks, Option.getD_some, List.forall₂_cons_left_iff] at hwaiting
  obtain ⟨pair, waiting, hpair, hrest, hwait⟩ := hwaiting
  have hsafe : s.Safe R .runTask ↔ (s.gRouteLbs j).objects p ≠ none ∧ s.client = true := by
    refine ⟨fun hsafe => hsafe j p tasks htasks, fun hsafe j' p' tasks' htasks' => ?_⟩
    cases htasks.symm.trans htasks'
    exact hsafe
  rw [hsafe]
  unfold AgentServers.step AgentServers.task
  rw [htasks]
  dsimp only
  cases hlb : (s.gRouteLbs j).objects p with
  | none => exact ⟨fun hand => absurd rfl hand.1, fun _ => ⟨_, rfl⟩⟩
  | some lb =>
    cases hclient : s.client with
    | false => exact ⟨fun hand => absurd hand.2 Bool.false_ne_true, fun _ => ⟨_, rfl⟩⟩
    | true =>
      have hasked : (lb.mModid, lb.mCmdid) = pair := by
        have hobject := (h.tables j).asked p lb hlb
        rw [TaskFor, hobject] at hpair
        exact Option.some.inj hpair
      refine ⟨fun _ => ⟨_, _, rfl, ⟨rfl, by rintro _ _ _ _ _ _ ⟨⟩⟩, ?_, fun hsent => ?_⟩,
        fun hnot => absurd ⟨Option.some_ne_none lb, rfl⟩ hnot⟩
      · refine ⟨h.handler, h.only, h.started, h.tables, ?_⟩
        change List.Forall₂ _ tasks a.waiting.tail
        rw [hwait]
        exact hrest
      · change _ ++ [pull lb.mModid lb.mCmdid] ++ a.waiting.tail.map AgentPairs.question =
          a.asked.map AgentPairs.question
        rw [List.append_assoc, ← hsent, hwait, ← hasked]
        rfl

/-- **The step**: the process goes on if it is safe, and else ends. -/
theorem Keeps.step {s : AgentServers α} {a : AgentPairs} (h : s.Keeps a) {ev : AgentEvent α}
    (hev : s.Possible ev) :
    (s.Safe R ev → ∃ o s', s.step R ev = .ok (o, s') ∧ Goes R a ev o s') ∧
    (¬ s.Safe R ev → ∃ t, s.step R ev = .error t) := by
  cases ev with
  | start i addr =>
    refine ⟨fun _ => ⟨_, _, rfl, ⟨rfl, by rintro _ _ _ _ _ _ ⟨⟩⟩, ⟨?_, ?_, ?_, h.tables, h.tasks⟩,
      fun hsent => ?_⟩, fun hnot => absurd trivial hnot⟩
    · simp [HandlerMap.getHandler, HandlerMap.registerHandler, AgentPairs.next]
    · intro id hid
      rw [← h.only id hid]
      simp [HandlerMap.getHandler, HandlerMap.registerHandler, hid]
    · exact fun _ _ => Option.some_ne_none i
    · rwa [Option.toList_none, List.append_nil]
  | startLoop =>
    have hwaiting := h.tasks
    rw [show s.tasks = none from hev] at hwaiting
    refine ⟨fun _ => ⟨_, _, rfl, ⟨rfl, by rintro _ _ _ _ _ _ ⟨⟩⟩,
      ⟨h.handler, h.only, h.started, h.tables, hwaiting⟩, fun hsent => ?_⟩,
      fun hnot => absurd trivial hnot⟩
    rwa [Option.toList_none, List.append_nil]
  | startClient =>
    refine ⟨fun _ => ⟨_, _, rfl, ⟨rfl, by rintro _ _ _ _ _ _ ⟨⟩⟩,
      ⟨h.handler, h.only, h.started, h.tables, h.tasks⟩, fun hsent => ?_⟩,
      fun hnot => absurd trivial hnot⟩
    rwa [Option.toList_none, List.append_nil]
  | read i answer u hInfo ok =>
    obtain ⟨e, he⟩ := Option.ne_none_iff_exists'.mp hev
    cases answer with
    | datagram src d =>
      rw [AgentServers.step, he]
      obtain ⟨hok, hfail⟩ := h.receive he src d u hInfo ok (R := R)
      exact ⟨hok, fun hnot => ⟨_, hfail hnot⟩⟩
    | interrupted | wouldBlock | failed =>
      refine ⟨fun _ => ⟨{}, s, rfl, ⟨rfl, by rintro _ _ _ _ _ _ ⟨⟩⟩, h, fun hsent => ?_⟩,
        fun hnot => absurd trivial hnot⟩
      rwa [Option.toList_none, List.append_nil]
  | updateHost j u modid cmdid hostInfos =>
    obtain ⟨rLb', hupdate, hkeeps⟩ := (h.tables j).updateHost u modid cmdid hostInfos
    obtain ⟨hstore, hfail⟩ := h.store
      (f := fun b => b.call (.updateHost u modid cmdid hostInfos)) hkeeps (Pairs.asked_call _ _)
    rw [AgentServers.step, hupdate, ok_bind]
    dsimp only
    refine ⟨fun hask => ?_, fun hask => ⟨_, by rw [hfail hask]; rfl⟩⟩
    obtain ⟨hstored, hkeeps'⟩ := hstore hask
    rw [hstored, ok_bind]
    refine ⟨_, _, rfl, ⟨rfl, by rintro _ _ _ _ _ _ ⟨⟩⟩, hkeeps', fun hsent => ?_⟩
    rw [Option.toList_none, List.append_nil]
    exact hsent.change _ _
  | runTask => exact h.runTask hev

/-- What a run shows, if the process does not end. -/
theorem shown_of_run {es : List (AgentEvent α)} {s s' : AgentServers α} {a : AgentPairs}
    {outs : List (AgentShown α)} {sent : List Dispatch} (h : s.Keeps a) (hsent : a.Handed sent)
    (hes : Along (step R) Possible s es) (hrun : run (step R) s es = .ok (outs, s')) :
    List.Forall₂ (Replied R) es outs ∧ s'.Keeps ((es.zip outs).foldl (AgentPairs.next R) a) ∧
      ((es.zip outs).foldl (AgentPairs.next R) a).Handed
        (sent ++ outs.filterMap AgentShown.question) := by
  induction es generalizing s a outs sent with
  | nil =>
    cases hrun
    exact ⟨.nil, h, by rwa [List.filterMap_nil, List.append_nil]⟩
  | cons ev es ih =>
    obtain ⟨o, s₁, os, hstep, hrest, rfl⟩ := run_cons_eq_ok.mp hrun
    obtain ⟨hok, hfail⟩ := h.step hes.1 (R := R)
    have hsafe : s.Safe R ev := by
      by_contra hnot
      obtain ⟨t, ht⟩ := hfail hnot
      cases ht.symm.trans hstep
    obtain ⟨o', s₁', hstep', hgoes⟩ := hok hsafe
    obtain ⟨rfl, rfl⟩ : o = o' ∧ s₁ = s₁' :=
      Prod.mk.inj (Except.ok.inj (hstep.symm.trans hstep'))
    obtain ⟨hall, hkeeps, hhanded⟩ :=
      ih hgoes.keeps (hgoes.handed hsent) (hes.2 o s₁ hstep) hrest
    refine ⟨.cons hgoes.replied hall, hkeeps, ?_⟩
    rw [List.append_assoc] at hhanded
    cases hquestion : o.question with
    | none =>
      rw [List.filterMap_cons_none hquestion]
      rwa [hquestion, Option.toList_none, List.nil_append] at hhanded
    | some m =>
      rw [List.filterMap_cons_some hquestion]
      rwa [hquestion, Option.toList_some, List.singleton_append] at hhanded

/-- **Requests are answered.** Whatever the servers receive, and in whatever order the threads take
their steps, calls on the `route_lb` not overlapping, the process goes on if and only if every step
is safe. As long as it does, each step answers the request that it dispatches, every request
received is dispatched, the tables keep the pairs looked up, and the DNS server has been asked for
the first of the new pairs, in their order. -/
theorem requests_answered {es : List (AgentEvent α)} (hes : Along (step R) Possible init es) :
    ((∃ outs s', run (step R) init es = .ok (outs, s')) ↔
      Along (step R) (Safe R) init es) ∧
    ∀ outs s', run (step R) init es = .ok (outs, s') →
      List.Forall₂ (Replied R) es outs ∧ s'.Keeps ((es.zip outs).foldl (AgentPairs.next R) {}) ∧
        ((es.zip outs).foldl (AgentPairs.next R) {}).Handed
          (outs.filterMap AgentShown.question) := by
  have hnone : AgentPairs.Handed {} [] := rfl
  refine ⟨exists_run_iff_along_of (P := fun s => ∃ a, s.Keeps a) (fun s ev ⟨a, hs⟩ hev => ?_)
    ⟨{}, keeps_init⟩ hes, fun outs s' hrun => shown_of_run keeps_init hnone hes hrun⟩
  obtain ⟨hok, hfail⟩ := hs.step hev (R := R)
  by_cases hsafe : s.Safe R ev
  · obtain ⟨o, s', hstep, hgoes⟩ := hok hsafe
    refine ⟨iff_of_true ⟨o, s', hstep⟩ hsafe, fun o' s'' hstep' => ?_⟩
    obtain ⟨rfl, rfl⟩ : o = o' ∧ s' = s'' :=
      Prod.mk.inj (Except.ok.inj (hstep.symm.trans hstep'))
    exact ⟨_, hgoes.keeps⟩
  · obtain ⟨t, ht⟩ := hfail hsafe
    refine ⟨iff_of_false ?_ hsafe, ?_⟩
    · rintro ⟨o, s', hstep⟩
      cases ht.symm.trans hstep
    · intro o s' hstep
      cases ht.symm.trans hstep

/-- Servers 0 and 1 start, and server 0 receives a request, before `g_dns_client` has a loop. -/
def askedEarly : List (AgentEvent Unit) :=
  let d := frame (hostQuestion base128 ⟨7, 1, 2⟩)
  let garbage := ⟨0, 0, 0, 0, 0, 0, 0, 0, false⟩
  [.start 0 (), .start 1 (), .read 0 (.datagram () d) ⟨none, 0⟩ garbage true]

/-- `g_dns_client` starts before the request comes, and runs the task. -/
def askedOnce : List (AgentEvent Unit) := [.startLoop, .startClient] ++ askedEarly ++ [.runTask]

theorem requests_answered_once :
    Along (step base128) (Safe base128) init askedOnce ∧
    ∃ outs s', run (step base128) init askedOnce = .ok (outs, s') ∧
      List.Forall₂ (Replied base128) askedOnce outs ∧
      (outs.map fun o => o.call.map (requestIn base128)) =
        [none, none, none, none, some ⟨7, 1, 2⟩, none] ∧
      ((askedOnce.zip outs).foldl (AgentPairs.next base128) {}).Handed [pull 1 2] := by
  have hpossible : Along (step base128) Possible init askedOnce :=
    along_cons rfl <| along_cons (Option.some_ne_none _) <| along_cons trivial <|
      along_cons trivial <| along_cons (Option.some_ne_none _) <| along_cons ⟨_, _, rfl⟩ <|
      along_nil _ _
  have hshown : (output (run (step base128) init askedOnce)).map
      (fun outs => (outs.map fun o => o.call.map (requestIn base128),
        outs.filterMap AgentShown.question)) =
      some ([none, none, none, none, some ⟨7, 1, 2⟩, none], [pull 1 2]) := by decide
  obtain ⟨outs, houts, hcalls⟩ := Option.map_eq_some_iff.mp hshown
  obtain ⟨s', hrun⟩ := output_eq_some.mp houts
  obtain ⟨hiff, hall⟩ := requests_answered hpossible
  obtain ⟨hreplied, -, hhanded⟩ := hall outs s' hrun
  refine ⟨hiff.mp ⟨outs, s', hrun⟩, outs, s', hrun, hreplied, congrArg Prod.fst hcalls, ?_⟩
  rwa [show outs.filterMap AgentShown.question = _ from congrArg Prod.snd hcalls] at hhanded

/-- A request that comes too early ends the process. -/
theorem not_answered_early :
    ¬ ∃ outs s', run (step base128) init askedEarly = .ok (outs, s') := by
  rintro ⟨outs, s', hrun⟩
  have hnone : output (run (step base128) init askedEarly) = none := by decide
  rw [output_of_eq_ok hrun] at hnone
  cases hnone

end AgentServers

end Lars.Agent
