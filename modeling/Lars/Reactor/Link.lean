import Lars.Foundations.Channel
import Lars.Reactor.Replies

/-!
# The two ends of a connection and the bytes between them

A client and the server's end of its connection call `send`, `handle_write` and `handle_read` in any
order. What a socket has accepted is on its way until the peer reads it, in chunks of any size, and
the handlers called for a chunk send in turn.

* `Side.Correct.step`: a call at one end keeps both directions right.
* `Link.delivered`: whatever the order of the calls, each end has dispatched the first of the
  messages its peer has sent, each once and in order, and all of them when nothing is under way.
* `Link.Right.answered`: a client of a server that answers every message gets the answers in the
  order of its questions.
-/

namespace Lars.Reactor

open Machine Framing

/-- The code of a class of endpoints. Its calls may need an `ε` from outside; `data` is where its
parse loop looks for a header. -/
structure Side (κ ω ε : Type) where
  kind : Kind κ ω
  ctl : ε → Bool
  close : ε → Endpoint κ ω → Except Halt (Endpoint κ ω)
  read : ε → KernelRead → Handlers → Endpoint κ ω → Except Halt (ReadOutcome × Endpoint κ ω)
  data : Option IoBuf → IoBuf → ℕ

/-- The code of `tcp_conn`. -/
def TcpConn.side : Side ConnCallback ConnOwn Bool where
  kind := kind
  ctl := id
  close := handleClose
  read := handleRead
  data entry _ := ReactorBuf.data entry

/-- The code of `tcp_client`. -/
def TcpClient.side : Side ClientCallback ClientOwn ClientEnv where
  kind := kind
  ctl := ClientEnv.ctl
  close := cleanConn
  read env := handleRead env true
  data _ b := ReactorBuf.data (some b)

/-- An end of a connection, with the messages it has sent and dispatched, the number of bytes it has
received, and the bytes its socket has accepted that are still on their way. -/
structure Party (κ ω : Type) where
  conn : Endpoint κ ω
  sent : List Dispatch
  got : List Dispatch
  received : ℕ
  outgoing : List UInt8

/-- A call at an end of a connection. `handle_read` gets `n` bytes, or all there are. -/
inductive PartyCall
  | send (id : Int32) (body : List UInt8)
  | handleWrite (answers : List WriteAnswer)
  | handleRead (interruptions n : ℕ) (h : Handlers)

/-- A call, with the pool it finds and what it needs from outside. -/
structure PartyEvent (ε : Type) where
  call : PartyCall
  pool : BufPool
  env : ε

namespace Side

variable {κ ω ε : Type} (S : Side κ ω ε)

/-- A call at an end of a connection when the bytes `incoming` are on their way to it, and those
that are then left. -/
def step (incoming : List UInt8) (x : Party κ ω) (ev : PartyEvent ε) :
    Except Halt (Shown × Party κ ω × List UInt8) :=
  let conn := { x.conn with pool := ev.pool }
  match ev.call with
  | .send id body => do
    let (ret, conn) ← Endpoint.send S.kind id body (S.ctl ev.env) conn
    .ok (.sent ret, { x with
      conn := conn
      sent := x.sent ++ if ret = 0 then [⟨id, body⟩] else [] }, incoming)
  | .handleWrite answers => do
    let (l, conn) ← Endpoint.handleWrite (S.close ev.env) (S.ctl ev.env) answers conn
    .ok (.wrote l, { x with conn := conn, outgoing := x.outgoing ++ l }, incoming)
  | .handleRead interruptions n h => do
    let (o, conn) ← S.read ev.env (.chunk interruptions (incoming.take n)) h conn
    .ok (.read o, { x with
      conn := conn
      sent := x.sent ++ h.replies o.dispatched
      got := x.got ++ o.dispatched
      received := x.received + (incoming.take n).length }, incoming.drop n)

/-- What is assumed of a call of `handle_read` when the peer has sent the messages `ms`: there is
something to read, the buffers and handlers needed are there, what the handlers send is not too long
and can be sent, and the effect of the chunk is `good`. -/
structure FairRead (good : List Dispatch → List UInt8 → Prop) (ms : List Dispatch) (x : Party κ ω)
    (ev : ReadEvent) (env : ε) : Prop where
  served : Endpoint.Served (S.read env) ms x.conn ev
  replying : Endpoint.Replying S.kind (S.close env) S.data x.conn ev
  fits : ∀ m ∈ ev.handlers.replies ((whole frame ms (x.received + ev.chunk.length)).drop
    (whole frame ms x.received).length), m.Fits
  good : good ((whole frame ms (x.received + ev.chunk.length)).drop
    (whole frame ms x.received).length) (unfinished frame ms (x.received + ev.chunk.length))

/-- What is assumed of a call: a `send` has a message that is not too long, and succeeds; no `write`
fails. -/
def Fair (good : List Dispatch → List UInt8 → Prop) (ms : List Dispatch) (incoming : List UInt8)
    (x : Party κ ω) (ev : PartyEvent ε) : Prop :=
  match ev.call with
  | .send id body =>
    (⟨id, body⟩ : Dispatch).Fits ∧
      ∃ conn, Endpoint.send S.kind id body (S.ctl ev.env) { x.conn with pool := ev.pool } =
        .ok (0, conn)
  | .handleWrite answers => .failed ∉ answers
  | .handleRead interruptions n h =>
    ∃ hne : incoming.take n ≠ [],
      S.FairRead good ms x ⟨incoming.take n, hne, interruptions, h, ev.pool⟩ ev.env

/-- A class is right: a call for a chunk with a `good` effect dispatches the messages completed, and
puts the frames of what the handlers send behind what is in the output buffer. `ready` is what it
needs of the class's own members. -/
def Correct (ready : ω → Prop) (good : List Dispatch → List UInt8 → Prop) : Prop :=
  ∀ (env : ε) (ms : List Dispatch) (e : Endpoint κ ω) (p : List UInt8) (ev : ReadEvent)
    (new : List Dispatch) (p' : List UInt8),
    (∀ m ∈ ms, m.Fits) → ready e.own → e.Holds p → ReactorBuf.Front e.obuf →
    Endpoint.Served (S.read env) ms e ev → Endpoint.Replying S.kind (S.close env) S.data e ev →
    new ⊆ ms → Partial frame ms p' → p ++ ev.chunk = stream frame new ++ p' → good new p' →
    ∃ e', Endpoint.onChunk (S.read env) e ev = .ok (new, e') ∧ ready e'.own ∧ e'.Holds p' ∧
      ReactorBuf.Front e'.obuf ∧
      ReactorBuf.contents e'.obuf =
        ReactorBuf.contents e.obuf ++ stream frame (ev.handlers.replies new)

end Side

theorem TcpConn.side_correct : side.Correct (fun _ => True) Repeats := by
  intro ctl ms c p ev new p' hfits _ hc hfront hev hreplies hnew hp' happ hrep
  obtain ⟨c', hcall, hholds, hfront', hcontents⟩ :=
    onChunk_replies hfits hc hfront hev hreplies hnew hp' happ hrep
  exact ⟨c', hcall, trivial, hholds, hfront', hcontents⟩

theorem TcpClient.side_correct :
    side.Correct (fun own => own.connected = true) fun _ _ => True := by
  intro env ms c p ev new p' hfits hconn hc hfront hev hreplies hnew hp' happ _
  exact onChunk_replies hfits hconn hc hfront hev hreplies hnew hp' happ

/-! ## A direction -/

/-- The direction from one end to the other: the bytes of the messages sent that have not been
received are on their way or in the output buffer, and those received have been dispatched or are in
the input buffer. -/
structure Flow {κ ω κ' ω' : Type} (x : Party κ ω) (y : Party κ' ω') : Prop where
  fits : ∀ m ∈ x.sent, m.Fits
  front : ReactorBuf.Front x.conn.obuf
  channel : Channel frame x.sent (ReactorBuf.contents x.conn.obuf) x.outgoing y.received
  got_eq : y.got = whole frame x.sent y.received
  holds : y.conn.Holds (unfinished frame x.sent y.received)

namespace Flow

variable {κ ω κ' ω' : Type} {x x' : Party κ ω} {y y' : Party κ' ω'}

/-- The sender sends. -/
theorem send (h : Flow x y) {ms : List Dispatch} (hms : ∀ m ∈ ms, m.Fits)
    (hsent : x'.sent = x.sent ++ ms) (hfront : ReactorBuf.Front x'.conn.obuf)
    (hcontents : ReactorBuf.contents x'.conn.obuf =
      ReactorBuf.contents x.conn.obuf ++ stream frame ms)
    (hout : x'.outgoing = x.outgoing) : Flow x' y where
  fits m hm := by
    rw [hsent] at hm
    exact (List.mem_append.mp hm).elim (h.fits m) (hms m)
  front := hfront
  channel := by
    rw [hsent, hcontents, hout]
    exact h.channel.send ms
  got_eq := by rw [hsent, whole_append frame_ne_nil ms h.channel.le, h.got_eq]
  holds := by
    rw [hsent, unfinished_append_messages ms h.channel.le]
    exact h.holds

/-- The sender's socket accepts bytes. -/
theorem write (h : Flow x y) {l : List UInt8} (hsent : x'.sent = x.sent)
    (hfront : ReactorBuf.Front x'.conn.obuf)
    (hl : l ++ ReactorBuf.contents x'.conn.obuf = ReactorBuf.contents x.conn.obuf)
    (hout : x'.outgoing = x.outgoing ++ l) : Flow x' y where
  fits := hsent ▸ h.fits
  front := hfront
  channel := by
    rw [hsent, hout]
    exact h.channel.write hl
  got_eq := hsent ▸ h.got_eq
  holds := hsent ▸ h.holds

/-- What the receiver does besides reading does not matter. -/
theorem receiver (h : Flow x y) (hgot : y'.got = y.got) (hreceived : y'.received = y.received)
    (hibuf : y'.conn.ibuf = y.conn.ibuf) : Flow x y' where
  fits := h.fits
  front := h.front
  channel := hreceived ▸ h.channel
  got_eq := by rw [hgot, hreceived, h.got_eq]
  holds := by
    rw [hreceived]
    exact ⟨hibuf ▸ h.holds.front, hibuf ▸ h.holds.contents_eq⟩

/-- The receiver reads. -/
theorem read (h : Flow x y) {c rest : List UInt8} (hc : x.outgoing = c ++ rest)
    (hconn : x'.conn = x.conn) (hsent : x'.sent = x.sent) (hout : x'.outgoing = rest)
    (hreceived : y'.received = y.received + c.length)
    (hgot : y'.got = y.got ++ (whole frame x.sent (y.received + c.length)).drop
      (whole frame x.sent y.received).length)
    (hholds : y'.conn.Holds (unfinished frame x.sent (y.received + c.length))) : Flow x' y' where
  fits := hsent ▸ h.fits
  front := hconn ▸ h.front
  channel := by
    rw [hsent, hconn, hout, hreceived]
    exact h.channel.read hc
  got_eq := by rw [hgot, hsent, hreceived, h.got_eq, whole_append_new]
  holds := by
    rw [hsent, hreceived]
    exact hholds

/-- The messages dispatched are the first of those sent. -/
theorem got_isPrefix (h : Flow x y) : y.got <+: x.sent := by
  rw [h.got_eq]
  exact whole_isPrefix_self x.sent y.received

/-- They are all when nothing is under way. -/
theorem got_eq_sent (h : Flow x y) (hobuf : ReactorBuf.length x.conn.obuf = 0)
    (hout : x.outgoing = []) : y.got = x.sent ∧ ReactorBuf.length y.conn.ibuf = 0 := by
  have hbuffer : ReactorBuf.contents x.conn.obuf = [] := by
    rw [← List.length_eq_zero_iff, ReactorBuf.length_contents, hobuf]
  have hchannel := h.channel
  rw [hbuffer, hout] at hchannel
  obtain ⟨hwhole, hunfinished⟩ := hchannel.complete
  refine ⟨h.got_eq.trans hwhole, ?_⟩
  rw [← ReactorBuf.length_contents, h.holds.contents_eq, hunfinished, List.length_nil]

end Flow

/-! ## A call at one end -/

section Step

variable {κ ω ε κ' ω' : Type} {S : Side κ ω ε} {ready : ω → Prop}
  {good : List Dispatch → List UInt8 → Prop} {x : Party κ ω} {y : Party κ' ω'}

/-- A call for a chunk keeps both directions right. -/
theorem Side.Correct.read (hS : S.Correct ready good) (hxy : Flow x y) (hyx : Flow y x)
    (hready : ready x.conn.own) {ev : ReadEvent} {env : ε} {rest : List UInt8}
    (hout : y.outgoing = ev.chunk ++ rest) (hev : S.FairRead good y.sent x ev env) :
    ∃ o conn, S.read env ev.kernelRead ev.handlers { x.conn with pool := ev.pool } =
        .ok (o, conn) ∧
      ∀ x' : Party κ ω, x'.conn = conn → x'.sent = x.sent ++ ev.handlers.replies o.dispatched →
        x'.got = x.got ++ o.dispatched → x'.received = x.received + ev.chunk.length →
        x'.outgoing = x.outgoing →
        Flow x' { y with outgoing := rest } ∧ Flow { y with outgoing := rest } x' ∧
          ready conn.own := by
  have hdrop : (stream frame y.sent).drop x.received =
      ev.chunk ++ (rest ++ ReactorBuf.contents y.conn.obuf) := by
    rw [hyx.channel.drop_eq, hout, List.append_assoc]
  obtain ⟨hnew, hpart, happ⟩ := chunk_effect hdrop
  obtain ⟨e', hcall, hready', hholds, hfront, hcontents⟩ := hS env y.sent x.conn _ ev _ _ hyx.fits
    hready hyx.holds hxy.front hev.served hev.replying hnew hpart happ hev.good
  obtain ⟨⟨o, conn⟩, hread, hcall⟩ := bind_eq_ok.mp hcall
  obtain ⟨hdispatched, rfl⟩ := Prod.mk.inj (Except.ok.inj hcall)
  refine ⟨o, conn, hread, fun x' hconn hsent hgot hreceived hout' => ⟨?_, ?_, hready'⟩⟩
  · have hsend : Flow x' y := by
      refine hxy.send ?_ hsent ?_ ?_ hout'
      · rw [hdispatched]
        exact hev.fits
      · rw [hconn]
        exact hfront
      · rw [hconn, hdispatched]
        exact hcontents
    exact hsend.receiver rfl rfl rfl
  · refine hyx.read hout rfl rfl rfl hreceived ?_ ?_
    · rw [hgot, hdispatched]
    · rw [hconn]
      exact hholds

/-- **A call at one end** ends, and keeps both directions right. -/
theorem Side.Correct.step (hS : S.Correct ready good) (hxy : Flow x y) (hyx : Flow y x)
    (hready : ready x.conn.own) {ev : PartyEvent ε}
    (hev : S.Fair good y.sent y.outgoing x ev) :
    ∃ o x' rest, S.step y.outgoing x ev = .ok (o, x', rest) ∧
      Flow x' { y with outgoing := rest } ∧ Flow { y with outgoing := rest } x' ∧
      ready x'.conn.own := by
  obtain ⟨call, pool, env⟩ := ev
  cases call with
  | send id body =>
    obtain ⟨hfits, conn, hsend⟩ := hev
    obtain ⟨hfront, hcontents, -⟩ := Endpoint.send_ok (e := { x.conn with pool := pool })
      hxy.front hsend
    obtain ⟨-, hibuf, hown⟩ := Endpoint.send_untouched hsend
    refine ⟨.sent 0, { x with conn := conn, sent := x.sent ++ [⟨id, body⟩] }, y.outgoing,
      by simp only [Side.step, hsend, ok_bind]; rfl, ?_, hyx.receiver rfl rfl hibuf, ?_⟩
    · have hone : ∀ m ∈ [Dispatch.mk id body], m.Fits := by
        intro m hm
        rwa [List.mem_singleton.mp hm]
      refine hxy.send hone rfl hfront ?_ rfl
      rw [hcontents, stream_cons, stream_nil, List.append_nil]
    · rw [hown]
      exact hready
  | handleWrite answers =>
    obtain ⟨l, conn, hwrite, hfront, -, hl, ⟨-, hibuf, hown⟩, -⟩ :=
      Endpoint.handleWrite_ok (e := { x.conn with pool := pool }) (S.close env) (S.ctl env) hev
        hxy.front
    refine ⟨.wrote l, { x with conn := conn, outgoing := x.outgoing ++ l }, y.outgoing,
      by simp only [Side.step, hwrite, ok_bind], hxy.write rfl hfront hl rfl,
      hyx.receiver rfl rfl hibuf, ?_⟩
    rw [hown]
    exact hready
  | handleRead interruptions n h =>
    obtain ⟨hne, hread⟩ := hev
    have hout : y.outgoing = y.outgoing.take n ++ y.outgoing.drop n :=
      (List.take_append_drop n _).symm
    obtain ⟨o, conn, hcall, hflow⟩ := hS.read hxy hyx hready hout hread
    have hcall' : S.read env (.chunk interruptions (y.outgoing.take n)) h
        { x.conn with pool := pool } = .ok (o, conn) := hcall
    refine ⟨.read o, { x with
      conn := conn
      sent := x.sent ++ h.replies o.dispatched
      got := x.got ++ o.dispatched
      received := x.received + (y.outgoing.take n).length }, y.outgoing.drop n, ?_,
      hflow _ rfl rfl rfl rfl rfl⟩
    simp only [Side.step, hcall', ok_bind]

end Step

/-! ## Both ends -/

/-- A connection between a server and a client. -/
structure Link where
  server : Party ConnCallback ConnOwn
  client : Party ClientCallback ClientOwn

/-- A call at one of the ends. -/
inductive LinkEvent
  | server (ev : PartyEvent Bool)
  | client (ev : PartyEvent ClientEnv)

namespace Link

/-- A call, with what is on its way from the other end. -/
def step (s : Link) : LinkEvent → Except Halt (Shown × Link)
  | .server ev => do
    let (o, server, rest) ← TcpConn.side.step s.client.outgoing s.server ev
    .ok (o, ⟨server, { s.client with outgoing := rest }⟩)
  | .client ev => do
    let (o, client, rest) ← TcpClient.side.step s.server.outgoing s.client ev
    .ok (o, ⟨{ s.server with outgoing := rest }, client⟩)

/-- What is assumed of a call. On the server's end the effect of a chunk is one that its parse loop
gets right. -/
def Fair (s : Link) : LinkEvent → Prop
  | .server ev => TcpConn.side.Fair TcpConn.Repeats s.client.sent s.client.outgoing s.server ev
  | .client ev =>
    TcpClient.side.Fair (fun _ _ => True) s.server.sent s.server.outgoing s.client ev

/-- Both directions are right. -/
structure Right (s : Link) : Prop where
  toClient : Flow s.server s.client
  toServer : Flow s.client s.server
  connected : s.client.conn.own.connected = true

/-- **A call keeps both directions right**, and does not end a process. -/
theorem Right.step {s : Link} (h : s.Right) {ev : LinkEvent} (hev : s.Fair ev) :
    ∃ o s', s.step ev = .ok (o, s') ∧ s'.Right := by
  cases ev with
  | server ev =>
    obtain ⟨o, server, rest, hcall, hclient, hserver, -⟩ :=
      TcpConn.side_correct.step h.toClient h.toServer trivial hev
    exact ⟨o, ⟨server, { s.client with outgoing := rest }⟩,
      by simp only [Link.step, hcall, ok_bind], hclient, hserver, h.connected⟩
  | client ev =>
    obtain ⟨o, client, rest, hcall, hserver, hclient, hconn⟩ :=
      TcpClient.side_correct.step h.toServer h.toClient h.connected hev
    exact ⟨o, ⟨{ s.server with outgoing := rest }, client⟩,
      by simp only [Link.step, hcall, ok_bind], hclient, hserver, hconn⟩

/-- **Runs keep both directions right.** -/
theorem Right.run {es : List LinkEvent} : ∀ {s : Link}, s.Right → Along Link.step Fair s es →
    ∃ outs s', Machine.run Link.step s es = .ok (outs, s') ∧ s'.Right := by
  induction es with
  | nil => exact fun h _ => ⟨[], _, rfl, h⟩
  | cons ev es ih =>
    intro s h hes
    obtain ⟨o, s₁, hstep, h₁⟩ := h.step hes.1
    obtain ⟨outs, s', hrun, h'⟩ := ih h₁ (hes.2 o s₁ hstep)
    exact ⟨o :: outs, s', run_cons_eq_ok.mpr ⟨o, s₁, outs, hstep, hrun, rfl⟩, h'⟩

end Link

/-! ## From the opening on -/

/-- An end whose `on_build` callback has run. -/
def Party.opened {κ ω : Type} (onBuild : List UserAct) (conn : Endpoint κ ω) : Party κ ω :=
  ⟨conn, onBuild.filterMap UserAct.message?, [], 0, []⟩

/-- The client as its `on_build` callback finds it. -/
def TcpClient.building (env : ClientEnv) (c : TcpClient) : TcpClient :=
  { c with
    own := { c.own with connected := true }
    loop := c.loop.addIoEvent env.ctl c.fd epollIn (.handleRead c.own.self) }

theorem Endpoint.established {κ ω : Type} {K : Kind κ ω} {onBuild : List UserAct}
    {e e' : Endpoint κ ω} (hobuf : e.obuf = none) (hbuild : Endpoint.Succeeds K onBuild e)
    (hrun : Endpoint.runScript K onBuild e = .ok e') :
    ReactorBuf.Front e'.obuf ∧
      ReactorBuf.contents e'.obuf = stream frame (onBuild.filterMap UserAct.message?) := by
  have hfront : ReactorBuf.Front e.obuf := hobuf ▸ ReactorBuf.front_none
  obtain ⟨e'', hrun', hfront', hcontents⟩ := Endpoint.runScript_contents hfront hbuild
  obtain rfl : e'' = e' := Except.ok.inj (hrun'.symm.trans hrun)
  rw [hobuf] at hcontents
  exact ⟨hfront', hcontents⟩

/-- Two ends that have just been opened. -/
theorem Flow.opened {κ ω κ' ω' : Type} {x : Party κ ω} {y : Party κ' ω'}
    (hfits : ∀ m ∈ x.sent, m.Fits) (hfront : ReactorBuf.Front x.conn.obuf)
    (hcontents : ReactorBuf.contents x.conn.obuf = stream frame x.sent) (hout : x.outgoing = [])
    (hgot : y.got = []) (hreceived : y.received = 0) (hibuf : y.conn.ibuf = none) : Flow x y where
  fits := hfits
  front := hfront
  channel := by
    rw [hcontents, hout, hreceived]
    exact Channel.start.send x.sent
  got_eq := by rw [hgot, hreceived, whole_zero frame_ne_nil]
  holds := by
    rw [hreceived, unfinished_zero]
    exact ⟨hibuf ▸ ReactorBuf.front_none, hibuf ▸ rfl⟩

namespace Link

/-- The server listens on the connection it has accepted, and the client finds that it is connected.
-/
def connect (onBuild : List UserAct) (env : ClientEnv) (c : TcpConn) (k : TcpClient) :
    Except Halt Link := do
  let c ← TcpConn.listenRead true onBuild c
  let k ← TcpClient.established env k
  .ok ⟨.opened onBuild c, .opened env.onBuild k⟩

/-- What is assumed of the opening: the ends have no buffers, and what the `on_build` callbacks send
is not too long and can be sent. -/
structure Opens (onBuild : List UserAct) (env : ClientEnv) (c : TcpConn) (k : TcpClient) :
    Prop where
  server : c.ibuf = none ∧ c.obuf = none
  client : k.ibuf = none ∧ k.obuf = none
  serverSends : Endpoint.Succeeds TcpConn.kind onBuild c.registered
  clientSends : Endpoint.Succeeds TcpClient.kind env.onBuild (k.building env)
  fits : ∀ m ∈ (onBuild ++ env.onBuild).filterMap UserAct.message?, m.Fits

/-- The opening makes both directions right. -/
theorem right_connect {onBuild : List UserAct} {env : ClientEnv} {c : TcpConn} {k : TcpClient}
    (h : Opens onBuild env c k) {s : Link} (hs : connect onBuild env c k = .ok s) : s.Right := by
  obtain ⟨c₁, hlisten, hs⟩ := bind_eq_ok.mp hs
  obtain ⟨k₁, hestablished, hs⟩ := bind_eq_ok.mp hs
  cases hs
  obtain ⟨c₂, hscript, hlisten⟩ := bind_eq_ok.mp hlisten
  cases hlisten
  have hfits := h.fits
  rw [List.filterMap_append] at hfits
  have hc := Endpoint.runScript_untouched hscript
  have hk : Endpoint.Untouched (k.building env) k₁ := Endpoint.runScript_untouched hestablished
  obtain ⟨hfront, hcontents⟩ := Endpoint.established (e := c.registered) h.server.2 h.serverSends
    hscript
  obtain ⟨hfront', hcontents'⟩ := Endpoint.established (e := k.building env) h.client.2
    h.clientSends hestablished
  refine ⟨?_, ?_, ?_⟩
  · exact .opened (fun m hm => hfits m (List.mem_append_left _ hm)) hfront hcontents rfl rfl rfl
      (hk.ibuf_eq.trans h.client.1)
  · exact .opened (fun m hm => hfits m (List.mem_append_right _ hm)) hfront' hcontents' rfl rfl rfl
      (hc.ibuf_eq.trans h.server.1)
  · exact congrArg ClientOwn.connected hk.own_eq

/-- The connection has come to `s` since its opening. -/
def Reached (s : Link) : Prop :=
  ∃ onBuild env c k s₀ es outs, Opens onBuild env c k ∧ connect onBuild env c k = .ok s₀ ∧
    Along step Fair s₀ es ∧ run step s₀ es = .ok (outs, s)

theorem Reached.right {s : Link} (h : s.Reached) : s.Right := by
  obtain ⟨onBuild, env, c, k, s₀, es, outs, hopens, hs₀, hes, hrun⟩ := h
  obtain ⟨outs', s', hrun', h'⟩ := (right_connect hopens hs₀).run hes
  obtain ⟨-, rfl⟩ := Prod.mk.inj (Except.ok.inj (hrun.symm.trans hrun'))
  exact h'

/-- The receiver has dispatched the first of the messages sent, and all of them if nothing is under
way. -/
def Delivered {κ ω κ' ω' : Type} (x : Party κ ω) (y : Party κ' ω') : Prop :=
  y.got <+: x.sent ∧
    (ReactorBuf.length x.conn.obuf = 0 → x.outgoing = [] →
      y.got = x.sent ∧ ReactorBuf.length y.conn.ibuf = 0)

/-- **A connection delivers.** From the opening of a connection on, over any interleaving of sends,
writes and reads at its two ends, no call ends a process, and each end has called the handlers for
the first of the messages its peer has sent, each once and in order; for all of them when no bytes
are on their way or in the peer's output buffer. -/
theorem delivered {onBuild : List UserAct} {env : ClientEnv} {c : TcpConn} {k : TcpClient}
    (h : Opens onBuild env c k) {s : Link} (hs : connect onBuild env c k = .ok s)
    {es : List LinkEvent} (hes : Along step Fair s es) :
    ∃ outs s', run step s es = .ok (outs, s') ∧
      Delivered s'.server s'.client ∧ Delivered s'.client s'.server := by
  obtain ⟨outs, s', hrun, h'⟩ := (right_connect h hs).run hes
  exact ⟨outs, s', hrun, ⟨h'.toClient.got_isPrefix, h'.toClient.got_eq_sent⟩,
    h'.toServer.got_isPrefix, h'.toServer.got_eq_sent⟩

/-- A client whose callbacks do nothing. -/
def quiet : ClientEnv := ⟨true, .pending, [], []⟩

/-- Handlers that send back what they get, under the next id. -/
def echo : Handlers where
  registered id := id = 1
  script ds := (ds.getLast?.map fun m => UserAct.send (m.id + 1) m.body true).toList

/-- A question that arrives in two chunks, and its answer. -/
def echoEvents : List LinkEvent :=
  [.client ⟨.send 1 [104, 105], .ofCounts fun _ => 2, quiet⟩,
    .client ⟨.handleWrite [.accepted 99], .ofCounts fun _ => 2, quiet⟩,
    .server ⟨.handleRead 0 3 echo, .ofCounts fun _ => 2, true⟩,
    .server ⟨.handleRead 1 99 echo, .ofCounts fun _ => 2, true⟩,
    .server ⟨.handleWrite [.accepted 99], .ofCounts fun _ => 2, true⟩,
    .client ⟨.handleRead 0 99 ⟨fun _ => true, fun _ => []⟩, .ofCounts fun _ => 2, quiet⟩]

/-- A connection as it is when it has been opened. -/
def fresh : Link :=
  ⟨.opened [] { (TcpConn.new 1 5 {} (fun _ => none) (.ofCounts fun _ => 2)).registered with
      own := ⟨1, .connected, Function.update (fun _ => none) 5 (some 1), []⟩ },
    .opened [] ((TcpClient.new 2 6 {} (.ofCounts fun _ => 2)).building quiet)⟩

theorem opens_new : Opens [] quiet (TcpConn.new 1 5 {} (fun _ => none) (.ofCounts fun _ => 2))
    (TcpClient.new 2 6 {} (.ofCounts fun _ => 2)) :=
  ⟨⟨rfl, rfl⟩, ⟨rfl, rfl⟩, trivial, trivial, fun _ h => absurd h List.not_mem_nil⟩

theorem connect_new :
    connect [] quiet (TcpConn.new 1 5 {} (fun _ => none) (.ofCounts fun _ => 2))
      (TcpClient.new 2 6 {} (.ofCounts fun _ => 2)) = .ok fresh := rfl

theorem fair_echo : Along step Fair fresh echoEvents := by
  have hwrite : WriteAnswer.failed ∉ [WriteAnswer.accepted 99] := by decide
  refine along_cons ⟨by decide, output_eq_some.mp (by decide)⟩ <| along_cons hwrite <|
    along_cons ⟨by decide, ?_⟩ <| along_cons ⟨by decide, ?_⟩ <| along_cons hwrite <|
    along_cons ⟨by decide, ?_⟩ <| along_nil _ _
  · exact ⟨.of_eval (by decide) (by decide) (by decide), .of_eval 3 (by decide), by decide,
      by decide⟩
  · exact ⟨.of_eval (by decide) (by decide) (by decide), .of_eval 3 (by decide), by decide,
      by decide⟩
  · exact ⟨.of_eval (by decide) (by decide) (by decide), .of_eval 3 (by decide), by decide,
      trivial⟩

theorem delivered_echo : ∃ outs s', run step fresh echoEvents = .ok (outs, s') ∧
    Delivered s'.server s'.client ∧ Delivered s'.client s'.server :=
  delivered opens_new connect_new fair_echo

end Link

/-! ## A server that answers -/

/-- Handlers that send one message for each they are called for. -/
theorem Handlers.forall₂_replies {h : Handlers} {Q : Dispatch → Dispatch → Prop}
    (hanswer : ∀ ds m, h.registered m.id = true →
      ∃ a, (h.script (ds ++ [m])).filterMap UserAct.message? = [a] ∧ Q m a)
    {ds : List Dispatch} (hreg : ∀ m ∈ ds, h.registered m.id = true) :
    List.Forall₂ Q ds (h.replies ds) := by
  induction ds using List.reverseRecOn with
  | nil => exact .nil
  | append_singleton ds m ih =>
    obtain ⟨a, ha, hQ⟩ := hanswer ds m (hreg m (by simp))
    rw [replies_append_singleton, ha]
    exact List.rel_append (ih fun m' hm' => hreg m' (List.mem_append_left _ hm')) (.cons hQ .nil)

namespace Link

/-- The server sends nothing unasked, and its handlers answer each message `m` with a message `a`
such that `Q m a`. -/
def Answers (Q : Dispatch → Dispatch → Prop) : LinkEvent → Prop
  | .server ⟨.send _ _, _, _⟩ => False
  | .server ⟨.handleRead _ _ h, _, _⟩ =>
    ∀ ds m, h.registered m.id = true →
      ∃ a, (h.script (ds ++ [m])).filterMap UserAct.message? = [a] ∧ Q m a
  | _ => True

variable {Q : Dispatch → Dispatch → Prop}

/-- The server has answered what it has got. -/
theorem answers_step {s s' : Link} {ev : LinkEvent} {o : Shown} (hev : Answers Q ev)
    (h : List.Forall₂ Q s.server.got s.server.sent) (hstep : s.step ev = .ok (o, s')) :
    List.Forall₂ Q s'.server.got s'.server.sent := by
  cases ev with
  | client ev =>
    obtain ⟨⟨o, client, rest⟩, -, hstep⟩ := bind_eq_ok.mp hstep
    cases hstep
    exact h
  | server ev =>
    obtain ⟨⟨o, server, rest⟩, hcall, hstep⟩ := bind_eq_ok.mp hstep
    cases hstep
    obtain ⟨call, pool, env⟩ := ev
    cases call with
    | send id body => exact hev.elim
    | handleWrite answers =>
      obtain ⟨⟨l, conn⟩, -, hcall⟩ := bind_eq_ok.mp hcall
      cases hcall
      exact h
    | handleRead interruptions n hs =>
      obtain ⟨⟨r, conn⟩, hread, hcall⟩ := bind_eq_ok.mp hcall
      cases hcall
      exact List.rel_append h (hs.forall₂_replies hev (TcpConn.registered_of_handleRead hread))

theorem answers_run {es : List LinkEvent} : ∀ {s s' : Link} {outs : List Shown},
    (∀ ev ∈ es, Answers Q ev) → List.Forall₂ Q s.server.got s.server.sent →
    run step s es = .ok (outs, s') → List.Forall₂ Q s'.server.got s'.server.sent := by
  induction es with
  | nil =>
    intro s s' outs _ h hrun
    cases hrun
    exact h
  | cons ev es ih =>
    intro s s' outs hes h hrun
    obtain ⟨o, s₁, os, hstep, hrun, -⟩ := run_cons_eq_ok.mp hrun
    exact ih (fun ev' hev' => hes ev' (List.mem_cons_of_mem ev hev'))
      (answers_step (hes ev List.mem_cons_self) h hstep) hrun

/-- What was got of the answers to what was got of the questions. -/
theorem forall₂_take_length {asked seen given got : List Dispatch} (h : List.Forall₂ Q seen given)
    (hseen : seen <+: asked) (hgot : got <+: given) :
    List.Forall₂ Q (asked.take got.length) got := by
  have hle : got.length ≤ seen.length := by
    rw [h.length_eq]
    exact hgot.length_le
  have htake := List.forall₂_take got.length h
  rw [← List.prefix_iff_eq_take.mp hgot] at htake
  obtain ⟨rest, rfl⟩ := hseen
  rwa [List.take_append_of_le_length hle]

/-- Nothing is under way or waits to be written. -/
structure Idle (s : Link) : Prop where
  server : ReactorBuf.length s.server.conn.obuf = 0 ∧ s.server.outgoing = []
  client : ReactorBuf.length s.client.conn.obuf = 0 ∧ s.client.outgoing = []

/-- **Answers come in the order of the questions**: the messages that the client has called its
handlers for are answers to the first of those it has sent, one for each and in their order; to all
of them when nothing is under way. -/
theorem Right.answered {s : Link} (h : s.Right)
    (hall : List.Forall₂ Q s.server.got s.server.sent) :
    List.Forall₂ Q (s.client.sent.take s.client.got.length) s.client.got ∧
      (s.Idle → List.Forall₂ Q s.client.sent s.client.got) := by
  refine ⟨forall₂_take_length hall h.toServer.got_isPrefix h.toClient.got_isPrefix, ?_⟩
  rintro ⟨⟨hobuf, hout⟩, hobuf', hout'⟩
  rw [(h.toClient.got_eq_sent hobuf hout).1, ← (h.toServer.got_eq_sent hobuf' hout').1]
  exact hall

/-- A server whose `on_build` callback sends nothing has answered all it has got from the opening
of a connection on. -/
theorem answers_connect {onBuild : List UserAct} {env : ClientEnv} {c : TcpConn} {k : TcpClient}
    (hsilent : onBuild.filterMap UserAct.message? = []) {s s' : Link}
    (hs : connect onBuild env c k = .ok s) {es : List LinkEvent} {outs : List Shown}
    (hanswers : ∀ ev ∈ es, Answers Q ev) (hrun : run step s es = .ok (outs, s')) :
    List.Forall₂ Q s'.server.got s'.server.sent := by
  refine answers_run hanswers ?_ hrun
  obtain ⟨c', -, hs⟩ := bind_eq_ok.mp hs
  obtain ⟨k', -, hs⟩ := bind_eq_ok.mp hs
  cases hs
  rw [Party.opened, hsilent]
  exact .nil

end Link

end Lars.Reactor
