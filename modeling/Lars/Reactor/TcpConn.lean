import Lars.Reactor.Endpoint

/-!
# The server's end of a connection

`tcp_conn` (`lars_reactor/src/tcp_conn.cc`). A connection belongs to a loop and, once `listenRead`
has run, is in the loop thread's table `t_event_loop_conns`. Its parse loop reads every header at
the place `data()` named when the loop started, and does not move on with the buffer.
-/

namespace Lars.Reactor

open Machine

/-- `CONN_STATE`. -/
inductive ConnState
  | disconnected
  | connecting
  | connected
  | disconnecting
  deriving DecidableEq

/-- The callbacks a connection registers; `self` is the object they hold. -/
inductive ConnCallback
  | handleRead (self : ℕ)
  | handleWrite (self : ℕ)
  deriving DecidableEq

/-- What a connection has besides the common members: its identity, its state, the table
`t_event_loop_conns` of its thread, and the descriptors that close callbacks were called for. -/
structure ConnOwn where
  self : ℕ
  state : ConnState
  conns : ℤ → Option ℕ
  closed : List ℤ

/-- `tcp_conn`. -/
abbrev TcpConn := Endpoint ConnCallback ConnOwn

namespace TcpConn

/-- `tcp_conn::send` starts without a condition. -/
def kind : Kind ConnCallback ConnOwn := ⟨fun _ => true, fun own => .handleWrite own.self⟩

/-- `tcp_conn::tcp_conn`, in a loop and a thread that may serve other connections. -/
def new (self : ℕ) (fd : ℤ) (loop : EventLoop ConnCallback) (conns : ℤ → Option ℕ)
    (pool : BufPool) : TcpConn where
  fd := fd
  ibuf := none
  obuf := none
  loop := loop
  pool := pool
  own := ⟨self, .connected, conns, []⟩

/-- `tcp_conn::send`. -/
def send (id : Int32) (body : List UInt8) (ctl : Bool) (c : TcpConn) : Except Halt (ℤ × TcpConn) :=
  Endpoint.send kind id body ctl c

/-- `tcp_conn::close`; `ctl` is the answer of `epoll_ctl`. -/
def close (ctl : Bool) (c : TcpConn) : TcpConn :=
  if c.own.state ≠ .connected then c
  else
    { c with
      loop := c.loop.delIoEvent ctl c.fd
      ibuf := none
      obuf := none
      pool := ReactorBuf.clear c.obuf (ReactorBuf.clear c.ibuf c.pool)
      own := { c.own with
        state := .disconnected
        conns := Function.update c.own.conns c.fd none
        closed := c.own.closed ++ [c.fd] } }

/-- `tcp_conn::handle_close`. -/
def handleClose (ctl : Bool) (c : TcpConn) : Except Halt TcpConn := .ok (c.close ctl)

/-- `tcp_conn::listen_read`; `onBuild` is what the `on_build` callback does. -/
def listenRead (ctl : Bool) (onBuild : List UserAct) (c : TcpConn) : Except Halt TcpConn := do
  let c := { c with loop := c.loop.addIoEvent ctl c.fd epollIn (.handleRead c.own.self) }
  let c ← Endpoint.runScript kind onBuild c
  .ok { c with own := { c.own with conns := Function.update c.own.conns c.fd (some c.own.self) } }

/-- `tcp_conn::handle_read`: `data` is taken once, before the loop. -/
def handleRead (ctl : Bool) (k : KernelRead) (h : Handlers) (c : TcpConn) :
    Except Halt (ReadOutcome × TcpConn) :=
  Endpoint.handleRead kind (handleClose ctl) h (fun entry _ => ReactorBuf.data entry) k c

/-- `tcp_conn::handle_write`. -/
def handleWrite (ctl : Bool) (answers : List WriteAnswer) (c : TcpConn) :
    Except Halt (List UInt8 × TcpConn) :=
  Endpoint.handleWrite (handleClose ctl) ctl answers c

/-! ## The connection as a machine -/

/-- The calls made on a connection that is listening. -/
inductive Call
  | handleRead (k : KernelRead) (h : Handlers)
  | handleWrite (answers : List WriteAnswer)
  | send (id : Int32) (body : List UInt8)

/-- A call, with the pool as other connections have left it and the answer of `epoll_ctl`. -/
structure Event where
  call : Call
  pool : BufPool
  ctl : Bool

/-- A call on the connection. -/
def step (c : TcpConn) (ev : Event) : Except Halt (Shown × TcpConn) :=
  let c := { c with pool := ev.pool }
  match ev.call with
  | .handleRead k h => do
    let (o, c) ← handleRead ev.ctl k h c
    .ok (.read o, c)
  | .handleWrite answers => do
    let (accepted, c) ← handleWrite ev.ctl answers c
    .ok (.wrote accepted, c)
  | .send id body => do
    let (ret, c) ← send id body ev.ctl c
    .ok (.sent ret, c)

/-- What a call does. -/
theorem step_cases {c c' : TcpConn} {ev : Event} {o : Shown} (h : step c ev = .ok (o, c')) :
    (∃ k hs r, ev.call = .handleRead k hs ∧
      handleRead ev.ctl k hs { c with pool := ev.pool } = .ok (r, c')) ∨
    (∃ answers l, ev.call = .handleWrite answers ∧
      handleWrite ev.ctl answers { c with pool := ev.pool } = .ok (l, c')) ∨
    ∃ id body ret, ev.call = .send id body ∧
      send id body ev.ctl { c with pool := ev.pool } = .ok (ret, c') := by
  unfold step at h
  cases hcall : ev.call with
  | handleRead k hs =>
    simp only [hcall] at h
    obtain ⟨⟨r, c₁⟩, hread, h⟩ := bind_eq_ok.mp h
    cases h
    exact Or.inl ⟨k, hs, r, rfl, hread⟩
  | handleWrite answers =>
    simp only [hcall] at h
    obtain ⟨⟨l, c₁⟩, hwrite, h⟩ := bind_eq_ok.mp h
    cases h
    exact Or.inr (Or.inl ⟨answers, l, rfl, hwrite⟩)
  | send id body =>
    simp only [hcall] at h
    obtain ⟨⟨ret, c₁⟩, hsend, h⟩ := bind_eq_ok.mp h
    cases h
    exact Or.inr (Or.inr ⟨id, body, ret, rfl, hsend⟩)

end TcpConn

end Lars.Reactor
