import Lars.Reactor.Endpoint

/-!
# The reconnecting client

`tcp_client` (`lars_reactor/src/tcp_client.cc`) connects without blocking: `doConnect` registers
`handleConnect` and waits. When the connection is lost `cleanConn` forgets the buffers and connects
again, on the same socket, from inside the callback that noticed. Unlike the server's end it takes
`data` anew in every pass of its parse loop.
-/

namespace Lars.Reactor

open Machine

/-- The callbacks a client registers; `self` is the object they hold. -/
inductive ClientCallback
  | handleConnect (self : ℕ)
  | handleRead (self : ℕ)
  | handleWrite (self : ℕ)
  deriving DecidableEq

/-- What a client has besides the common members. -/
structure ClientOwn where
  self : ℕ
  connected : Bool

/-- `tcp_client`. -/
abbrev TcpClient := Endpoint ClientCallback ClientOwn

/-- The answer of `::connect`: its value, and whether `errno` is `EINPROGRESS`. -/
structure ConnectAnswer where
  ret : ℤ
  inProgress : Bool
  deriving DecidableEq

/-- A connection made at once. -/
def ConnectAnswer.immediate : ConnectAnswer := ⟨0, false⟩

/-- A connection begun. -/
def ConnectAnswer.pending : ConnectAnswer := ⟨-1, true⟩

/-- What a call of a client's method may need from outside: the answers of `epoll_ctl` and
`::connect`, and what the `on_build` and `on_close` callbacks do. -/
structure ClientEnv where
  ctl : Bool
  connect : ConnectAnswer
  onBuild : List UserAct
  onClose : List UserAct

namespace TcpClient

/-- `tcp_client::send` starts with the test of `m_connected`. -/
def kind : Kind ClientCallback ClientOwn := ⟨ClientOwn.connected, fun own => .handleWrite own.self⟩

/-- `tcp_client::tcp_client`. -/
def new (self : ℕ) (fd : ℤ) (loop : EventLoop ClientCallback) (pool : BufPool) : TcpClient where
  fd := fd
  ibuf := none
  obuf := none
  loop := loop
  pool := pool
  own := ⟨self, false⟩

/-- `tcp_client::send`. -/
def send (id : Int32) (body : List UInt8) (ctl : Bool) (c : TcpClient) :
    Except Halt (ℤ × TcpClient) :=
  Endpoint.send kind id body ctl c

/-- `m_connected` set, `handle_read` registered, `on_build` called: the success branches of
`do_connect` and `handle_connect`. -/
def established (env : ClientEnv) (c : TcpClient) : Except Halt TcpClient :=
  let c := { c with
    own := { c.own with connected := true }
    loop := c.loop.addIoEvent env.ctl c.fd epollIn (.handleRead c.own.self) }
  Endpoint.runScript kind env.onBuild c

/-- `tcp_client::do_connect`. -/
def doConnect (env : ClientEnv) (c : TcpClient) : Except Halt TcpClient :=
  if env.connect.ret > 0 then established env c
  else if env.connect.ret < 0 then
    if env.connect.inProgress then
      .ok { c with loop := c.loop.addIoEvent env.ctl c.fd epollOut (.handleConnect c.own.self) }
    else .error .exit
  else .ok c

/-- `tcp_client::handle_connect`; `soError` is the socket's `SO_ERROR`. -/
def handleConnect (env : ClientEnv) (soError : ℤ) (c : TcpClient) : Except Halt TcpClient :=
  let c := { c with loop := c.loop.delIoEvent env.ctl c.fd }
  if soError = 0 then established env c
  else .error .exit

/-- `tcp_client::clean_conn`. -/
def cleanConn (env : ClientEnv) (c : TcpClient) : Except Halt TcpClient := do
  let c := if c.fd ≠ -1 then { c with loop := c.loop.delIoEvent env.ctl c.fd } else c
  let c := { c with
    ibuf := none
    obuf := none
    pool := ReactorBuf.clear c.obuf (ReactorBuf.clear c.ibuf c.pool)
    own := { c.own with connected := false } }
  let c ← Endpoint.runScript kind env.onClose c
  doConnect env c

/-- `tcp_client::handle_read`; `probe` says whether its own `ioctl` succeeds. -/
def handleRead (env : ClientEnv) (probe : Bool) (k : KernelRead) (h : Handlers) (c : TcpClient) :
    Except Halt (ReadOutcome × TcpClient) :=
  if !c.own.connected then .error .abort
  else if !probe then .ok (⟨-1, []⟩, c)
  else Endpoint.handleRead kind (cleanConn env) h (fun _ b => ReactorBuf.data (some b)) k c

/-- `tcp_client::handle_write`. -/
def handleWrite (env : ClientEnv) (answers : List WriteAnswer) (c : TcpClient) :
    Except Halt (List UInt8 × TcpClient) :=
  Endpoint.handleWrite (cleanConn env) env.ctl answers c

/-! ## The client as a machine -/

/-- The calls made on a client once `do_connect` has been called. -/
inductive Call
  | handleConnect (soError : ℤ)
  | handleRead (probe : Bool) (k : KernelRead) (h : Handlers)
  | handleWrite (answers : List WriteAnswer)
  | send (id : Int32) (body : List UInt8)

/-- A call, with the pool as other connections have left it and what else it finds. -/
structure Event where
  call : Call
  pool : BufPool
  env : ClientEnv

/-- A call on the client. -/
def step (c : TcpClient) (ev : Event) : Except Halt (Shown × TcpClient) :=
  let c := { c with pool := ev.pool }
  match ev.call with
  | .handleConnect soError => do
    let c ← handleConnect ev.env soError c
    .ok (.done, c)
  | .handleRead probe k h => do
    let (o, c) ← handleRead ev.env probe k h c
    .ok (.read o, c)
  | .handleWrite answers => do
    let (accepted, c) ← handleWrite ev.env answers c
    .ok (.wrote accepted, c)
  | .send id body => do
    let (ret, c) ← send id body ev.env.ctl c
    .ok (.sent ret, c)

/-- What a call does. -/
theorem step_cases {c c' : TcpClient} {ev : Event} {o : Shown} (h : step c ev = .ok (o, c')) :
    (∃ soError, ev.call = .handleConnect soError ∧ established ev.env
      { c with pool := ev.pool, loop := c.loop.delIoEvent ev.env.ctl c.fd } = .ok c') ∨
    (∃ probe k hs, ev.call = .handleRead probe k hs ∧ (c' = { c with pool := ev.pool } ∨
      ∃ r, Endpoint.handleRead kind (cleanConn ev.env) hs (fun _ b => ReactorBuf.data (some b)) k
        { c with pool := ev.pool } = .ok (r, c'))) ∨
    (∃ answers l, ev.call = .handleWrite answers ∧
      Endpoint.handleWrite (cleanConn ev.env) ev.env.ctl answers { c with pool := ev.pool } =
        .ok (l, c')) ∨
    ∃ id body ret, ev.call = .send id body ∧
      Endpoint.send kind id body ev.env.ctl { c with pool := ev.pool } = .ok (ret, c') := by
  unfold step at h
  cases hcall : ev.call with
  | handleConnect soError =>
    simp only [hcall] at h
    obtain ⟨c₁, hconn, h⟩ := bind_eq_ok.mp h
    cases h
    unfold handleConnect at hconn
    split_ifs at hconn
    exact Or.inl ⟨soError, rfl, hconn⟩
  | handleRead probe k hs =>
    simp only [hcall] at h
    obtain ⟨⟨r, c₁⟩, hread, h⟩ := bind_eq_ok.mp h
    cases h
    unfold handleRead at hread
    split_ifs at hread
    · cases hread
      exact Or.inr (Or.inl ⟨probe, k, hs, rfl, Or.inl rfl⟩)
    · exact Or.inr (Or.inl ⟨probe, k, hs, rfl, Or.inr ⟨r, hread⟩⟩)
  | handleWrite answers =>
    simp only [hcall] at h
    obtain ⟨⟨l, c₁⟩, hwrite, h⟩ := bind_eq_ok.mp h
    cases h
    exact Or.inr (Or.inr (Or.inl ⟨answers, l, rfl, hwrite⟩))
  | send id body =>
    simp only [hcall] at h
    obtain ⟨⟨ret, c₁⟩, hsend, h⟩ := bind_eq_ok.mp h
    cases h
    exact Or.inr (Or.inr (Or.inr ⟨id, body, ret, rfl, hsend⟩))

end TcpClient

end Lars.Reactor
