import Lars.Reactor.TcpClient

/-!
# Reconnecting

A client that is not stuck is either connected, with `handle_read` registered for `EPOLLIN`, or
connecting, with `handle_connect` registered for `EPOLLOUT` (`Registered`). Three things break this:

* `::connect` may succeed at once, returning `0`: `do_connect` tests for a positive value, and does
  nothing;
* a `write` that fails makes `handle_write` reconnect and then, the output buffer being empty, give
  up `EPOLLOUT`, which now belongs to `handle_connect`;
* so does a `handle_write` that is called while the client is connecting.

`registered_of_run` says that a client that meets none of these is never stuck.
-/

namespace Lars.Reactor

open Machine

namespace TcpClient

/-- The client is connected and registered for reading, or connecting and registered for
`handle_connect`; and the kernel is asked for what is registered. -/
structure Registered (c : TcpClient) : Prop where
  inSync : c.loop.InSync c.fd
  event : ∃ ev, c.loop.ioEvsMap c.fd = some ev ∧
    (c.own.connected = true ∧ ev.event.has epollIn = true ∧
        ev.readCallback = some (.handleRead c.own.self) ∨
      c.own.connected = false ∧ ev.event.has epollOut = true ∧
        ev.writeCallback = some (.handleConnect c.own.self))

/-- `epoll_ctl` succeeds in a call, user code included. -/
structure Benign (env : ClientEnv) : Prop where
  ctl : env.ctl = true
  onBuild : Endpoint.CtlIn (· = true) env.onBuild
  onClose : Endpoint.CtlIn (· = true) env.onClose

/-- A call that keeps a client registered: `epoll_ctl` succeeds; `::connect`, if `handle_read` calls
it, begins a connection; and `handle_write` is called on a connected client and has no `write`
fail. -/
def Meets (c : TcpClient) (ev : Event) : Prop :=
  Benign ev.env ∧
  match ev.call with
  | .handleRead _ _ h => ev.env.connect = .pending ∧ ∀ ds, Endpoint.CtlIn (· = true) (h.script ds)
  | .handleWrite answers => c.own.connected = true ∧ .failed ∉ answers
  | _ => True

/-! ## What the parts of the calls do -/

theorem Registered.input {c : TcpClient} (hc : Registered c) (ibuf : Option IoBuf)
    (pool : BufPool) :
    Registered { c with ibuf := ibuf, pool := pool } := ⟨hc.inSync, hc.event⟩

/-- A client that is connected keeps `handle_read` registered whatever is registered for writing. -/
theorem Registered.addOut {c : TcpClient} (hc : Registered c) (hconn : c.own.connected = true)
    (proc : ClientCallback) :
    Registered { c with loop := c.loop.addIoEvent true c.fd epollOut proc } := by
  obtain ⟨ev, hev, ⟨-, hin, hread⟩ | ⟨hno, -⟩⟩ := hc.event
  · refine ⟨EventLoop.addIoEvent_inSync hc.inSync _ _, ?_⟩
    refine ⟨_, by rw [EventLoop.addIoEvent_ioEvsMap, Function.update_self], Or.inl ⟨hconn, ?_, ?_⟩⟩
    · rw [hev, Option.elim_some, EventMask.has_or, hin, Bool.true_or]
    · have hout : epollOut.has epollIn = false := by decide
      simp only [hout, Bool.false_eq_true, if_false, hev, Option.bind_some, hread]
  · rw [hconn] at hno
    cases hno

theorem Registered.send {c c' : TcpClient} (hc : Registered c) {id : Int32} {body : List UInt8}
    {ret : ℤ} (h : Endpoint.send kind id body true c = .ok (ret, c')) : Registered c' := by
  cases Endpoint.sends h with
  | barred => exact hc
  | refused => exact ⟨hc.inSync, hc.event⟩
  | first hconn => exact ⟨(hc.addOut hconn _).inSync, (hc.addOut hconn _).event⟩
  | behind => exact ⟨hc.inSync, hc.event⟩

/-- Whatever was registered, a connection established leaves `handle_read` registered. -/
theorem registered_of_established {env : ClientEnv} (henv : Benign env) {c c' : TcpClient}
    (hsync : c.loop.InSync c.fd) (h : established env c = .ok c') : Registered c' := by
  refine Endpoint.runScript_keeps (P := Registered) (fun _ _ _ hc => hc.input _ _)
    (fun c id body ctl ret c' hctl hc hs => ?_) henv.onBuild ?_ h
  · subst hctl
    exact hc.send hs
  · rw [henv.ctl]
    refine ⟨EventLoop.addIoEvent_inSync hsync _ _, ?_⟩
    refine ⟨_, by rw [EventLoop.addIoEvent_ioEvsMap, Function.update_self], Or.inl ⟨rfl, ?_, ?_⟩⟩
    · rw [EventMask.has_or]
      simp [EventMask.has, epollIn]
    · dsimp only
      rw [if_pos (by decide)]

/-- Whatever was registered, a connection begun leaves `handle_connect` registered. -/
theorem registered_of_doConnect {env : ClientEnv} (henv : Benign env)
    (hpending : env.connect = .pending) {c c' : TcpClient} (hsync : c.loop.InSync c.fd)
    (hconn : c.own.connected = false)
    (h : doConnect env c = .ok c') : Registered c' := by
  unfold doConnect at h
  rw [hpending, henv.ctl] at h
  cases h
  refine ⟨EventLoop.addIoEvent_inSync hsync _ _, ?_⟩
  refine ⟨_, by rw [EventLoop.addIoEvent_ioEvsMap, Function.update_self], Or.inr ⟨hconn, ?_, ?_⟩⟩
  · rw [EventMask.has_or]
    simp [EventMask.has, epollOut]
  · dsimp only
    rw [if_pos (by decide)]

/-- User code does nothing to a client that is not connected. -/
theorem runScript_unconnected {acts : List UserAct} {c c' : TcpClient}
    (hconn : c.own.connected = false) (h : Endpoint.runScript kind acts c = .ok c') :
    c'.loop = c.loop := by
  have hkeep := Endpoint.runScript_keeps (K := kind) (C := fun _ => True)
    (P := fun c' : TcpClient => c'.own.connected = false ∧ c'.loop = c.loop)
    (fun _ _ _ hc => hc) (fun c₁ id body ctl ret c₂ _ hc hs => ?_) (fun _ _ _ _ => trivial)
    ⟨hconn, rfl⟩ h
  · exact hkeep.2
  · have hmay : kind.maySend c₁.own = false := hc.1
    cases Endpoint.sends hs with
    | barred => exact hc
    | refused hmay' => cases hmay.symm.trans hmay'
    | first hmay' => cases hmay.symm.trans hmay'
    | behind hmay' => cases hmay.symm.trans hmay'

theorem Registered.cleanConn {env : ClientEnv} (henv : Benign env)
    (hpending : env.connect = .pending) {c c' : TcpClient} (hc : Registered c)
    (h : TcpClient.cleanConn env c = .ok c') : Registered c' := by
  obtain ⟨c₁, hrun, h⟩ := bind_eq_ok.mp h
  obtain ⟨hfd, -, hown⟩ := Endpoint.runScript_untouched hrun
  refine registered_of_doConnect henv hpending ?_ (by rw [hown]) h
  rw [hfd, runScript_unconnected rfl hrun, henv.ctl]
  dsimp only
  split_ifs
  · exact EventLoop.delIoEvent_inSync hc.inSync
  · exact hc.inSync

theorem keeps_registered {env : ClientEnv} (henv : Benign env) (hpending : env.connect = .pending) :
    Endpoint.Keeps kind (TcpClient.cleanConn env) (· = true) Registered where
  input _ _ _ hc := hc.input _ _
  send _ _ _ _ _ _ hctl hc h := hc.send (hctl ▸ h)
  close _ _ hc h := hc.cleanConn henv hpending h

/-- Giving up `EPOLLOUT` does not harm a client that is connected. -/
theorem Registered.delOut {c : TcpClient} (hc : Registered c) (hconn : c.own.connected = true) :
    Registered { c with loop := c.loop.delIoEventMask true c.fd epollOut } := by
  obtain ⟨ev, hev, ⟨-, hin, hread⟩ | ⟨hno, -⟩⟩ := hc.event
  · refine ⟨EventLoop.delIoEventMask_inSync hc.inSync _, ?_⟩
    have hin' : (ev.event &&& ~~~epollOut).has epollIn = true := by
      rw [EventMask.has_in_sub_out, hin]
    refine ⟨{ ev with event := ev.event &&& ~~~epollOut }, ?_, Or.inl ⟨hconn, hin', hread⟩⟩
    rw [EventLoop.delIoEventMask_ioEvsMap, Function.update_self, hev, Option.bind_some,
      if_neg (EventMask.ne_zero_of_has hin')]
  · rw [hconn] at hno
    cases hno

/-! ## Calls and runs -/

/-- **A call that meets the condition keeps a client registered.** -/
theorem Registered.step {c c' : TcpClient} {ev : Event} {o : Shown} (hc : Registered c)
    (hev : Meets c ev) (h : TcpClient.step c ev = .ok (o, c')) : Registered c' := by
  obtain ⟨henv, hmeets⟩ := hev
  have hc₀ := hc.input c.ibuf ev.pool
  obtain ⟨soError, -, h⟩ | ⟨probe, k, hs, hcall, rfl | ⟨r, h⟩⟩ | ⟨answers, l, hcall, h⟩ |
    ⟨id, body, ret, -, h⟩ := step_cases h
  · refine registered_of_established henv ?_ h
    dsimp only
    rw [henv.ctl]
    exact EventLoop.delIoEvent_inSync hc.inSync
  · exact hc₀
  · rw [hcall] at hmeets
    exact (keeps_registered henv hmeets.1).handleRead hmeets.2 hc₀ h
  · rw [hcall] at hmeets
    obtain ⟨failed, d, c₁, hdrain, hclose, hlast⟩ := Endpoint.handleWrite_cases h
    have hd : Registered { c with obuf := d.buf, pool := ev.pool } := ⟨hc.inSync, hc.event⟩
    rcases hclose with ⟨hfailed, -⟩ | ⟨-, rfl⟩
    · exact absurd (ReactorBuf.drain_failed hdrain hfailed) hmeets.2
    · rcases hlast with rfl | rfl
      · rw [henv.ctl]
        exact hd.delOut hmeets.1
      · exact hd
  · rw [henv.ctl] at h
    exact hc₀.send h

/-- **The reconnecting client.** A client that `do_connect` has left connecting is registered, and
is after every call of every run of calls that meet the condition. -/
theorem registered_of_run {env₀ : ClientEnv} (henv₀ : Benign env₀)
    (hpending : env₀.connect = .pending)
    {c₀ c : TcpClient} (hsync : c₀.loop.InSync c₀.fd) (hconn : c₀.own.connected = false)
    (h₀ : doConnect env₀ c₀ = .ok c) {es : List Event} (hes : Along TcpClient.step Meets c es) :
    Registered c ∧
      Along TcpClient.step (fun c ev => ∀ o c', TcpClient.step c ev = .ok (o, c') → Registered c')
        c es := by
  have hc : Registered c := registered_of_doConnect henv₀ hpending hsync hconn h₀
  exact ⟨hc, hes.imp (fun _ _ hc hev => ⟨fun _ _ => hc.step hev, fun _ _ => hc.step hev⟩) hc⟩

/-- A client that connects, sends, and connects again when the peer closes. -/
theorem registered_of_run_reconnect : ∃ c,
    doConnect ⟨true, .pending, [], []⟩ (new 1 5 {} (.ofCounts fun _ => 2)) = .ok c ∧
    Registered c ∧
      Along TcpClient.step (fun c ev => ∀ o c', TcpClient.step c ev = .ok (o, c') → Registered c') c
        [⟨.handleConnect 0, .ofCounts fun _ => 2, ⟨true, .pending, [], []⟩⟩,
          ⟨.send 2 [98], .ofCounts fun _ => 2, ⟨true, .pending, [], []⟩⟩,
          ⟨.handleWrite [.accepted 3], .ofCounts fun _ => 2, ⟨true, .pending, [], []⟩⟩,
          ⟨.handleRead true ⟨some 0, [.data []]⟩ ⟨fun _ => true, fun _ => []⟩, .ofCounts fun _ => 2,
            ⟨true, .pending, [], []⟩⟩] := by
  have henv : Benign ⟨true, .pending, [], []⟩ :=
    ⟨rfl, Endpoint.ctlIn_nil _, Endpoint.ctlIn_nil _⟩
  refine ⟨_, rfl, registered_of_run henv rfl ⟨rfl, by simp [new]⟩ rfl rfl ?_⟩
  refine along_cons ⟨henv, trivial⟩ (along_cons ⟨henv, trivial⟩ (along_cons ⟨henv, rfl, ?_⟩
    (along_cons ⟨henv, rfl, fun _ => Endpoint.ctlIn_nil _⟩ (along_nil _ _))))
  decide

/-- A connection made at once is taken for none; and a `write` that fails deregisters the client
that reconnects, even if all connections are begun. -/
theorem not_registered_of_run :
    (¬ ∀ (env₀ : ClientEnv) (c₀ c : TcpClient), Benign env₀ →
      (env₀.connect = .pending ∨ env₀.connect = .immediate) → c₀.loop.InSync c₀.fd →
      c₀.own.connected = false → doConnect env₀ c₀ = .ok c → Registered c) ∧
    ¬ ∀ (c : TcpClient) (es : List Event), Registered c →
      (∀ ev ∈ es, Benign ev.env ∧ ev.env.connect = .pending) →
      Along TcpClient.step (fun c ev => ∀ o c', TcpClient.step c ev = .ok (o, c') → Registered c')
        c es := by
  refine ⟨fun hall => ?_, fun hall => ?_⟩
  · obtain ⟨ev, hev, -⟩ := (hall ⟨true, .immediate, [], []⟩ (new 1 5 {} (.ofCounts fun _ => 2)) _
      ⟨rfl, Endpoint.ctlIn_nil _, Endpoint.ctlIn_nil _⟩ (Or.inr rfl) ⟨rfl, by simp [new]⟩ rfl
      rfl).event
    cases hev
  · have henv : Benign ⟨true, .pending, [], []⟩ :=
      ⟨rfl, Endpoint.ctlIn_nil _, Endpoint.ctlIn_nil _⟩
    have hreg : Registered { new 1 5 {} (.ofCounts fun _ => 2) with
        loop := EventLoop.addIoEvent {} true 5 epollOut (.handleConnect 1) } :=
      registered_of_doConnect henv rfl (c := new 1 5 {} (.ofCounts fun _ => 2))
        ⟨rfl, by simp [new]⟩ rfl rfl
    have hes := hall _ [⟨.handleConnect 0, .ofCounts fun _ => 2, ⟨true, .pending, [], []⟩⟩,
      ⟨.send 2 [98], .ofCounts fun _ => 2, ⟨true, .pending, [], []⟩⟩,
      ⟨.handleWrite [.failed], .ofCounts fun _ => 2, ⟨true, .pending, [], []⟩⟩] hreg
      (by simp [henv])
    obtain ⟨ev, hev, -⟩ := (((hes.tail (by decide)).tail (by decide)).after (by decide)).event
    have hsome := congrArg Option.isSome hev
    rw [Option.isSome_some] at hsome
    exact absurd hsome (by decide)

end TcpClient

end Lars.Reactor
