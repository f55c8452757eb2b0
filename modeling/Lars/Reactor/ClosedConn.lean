import Lars.Reactor.FailedSend
import Lars.Reactor.TcpServer

/-!
# Closed connections

`tcp_conn::close` takes a connection out of its loop and out of `t_event_loop_conns`. Nothing keeps
it out. `tcp_conn::send` does not look at `m_state` (`tcp_client::send` looks at `m_connected`), and
registers `handle_write` for the first bytes in the output buffer; `listen_read` enters the
connection in the table whatever its `on_build` callback has done.

* `staysClosed_operate_iff`: which operations leave a connection that is not connected registered;
* `staysClosed_of_run`: without these, it never is.
-/

namespace Lars.Reactor

open Machine

/-- Behind its header, the body is more than the largest buffer holds. -/
def OverLarge (body : List UInt8) : Prop := MemCap.m8M.size < MemCap.m4K.size + body.length

instance (body : List UInt8) : Decidable (OverLarge body) := inferInstanceAs (Decidable (_ < _))

/-- The act sends nothing that a buffer takes. -/
def UserAct.Quiet : UserAct → Prop
  | .send _ body _ => OverLarge body
  | .other _ => True

/-! ## Sending on an empty buffer -/

namespace ReactorBuf

/-- Without a buffer, a header gets one of the smallest size. -/
theorem writeData_header {id : Int32} {body : List UInt8} {p p' : BufPool} {n : ℤ}
    {r : Option IoBuf} (h : writeData none (header id body).bytes p = .ok (n, r, p')) :
    ∃ b, r = some b ∧ ¬ n < 0 ∧ b.cap = .m4K ∧ b.length = messageHeaderSize := by
  have hhdr : (header id body).bytes.length = messageHeaderSize := Message.length_bytes _
  unfold writeData ensure at h
  rw [hhdr] at h
  rcases p.allocBuf_cases (messageHeaderSize : ℕ) with ⟨-, hi⟩ | ⟨ha, -⟩ |
    ⟨b, p₂, ha, hi, -, hlen, -⟩
  · exact absurd hi (by decide)
  · rw [ha] at h
    cases h
  · rw [ha, ok_bind] at h
    have hcap : b.cap = .m4K := by
      have hindex : BufPool.index (messageHeaderSize : ℕ) = some .m4K := by decide
      exact Option.some.inj (hi.symm.trans hindex)
    have hgrow : grow b messageHeaderSize p₂ = .ok (some b, p₂) := by
      unfold grow IoBuf.capacity
      rw [hcap, hlen]
      exact if_neg (by decide)
    dsimp only at h
    rw [hgrow] at h
    cases h
    refine ⟨_, rfl, by simp [messageHeaderSize], hcap, ?_⟩
    show b.length + (header id body).bytes.length = messageHeaderSize
    rw [hlen, hhdr, Nat.zero_add]

/-- A body is refused behind a header for its size alone. -/
theorem writeData_body {b : IoBuf} {body : List UInt8} {p p' : BufPool} {n : ℤ} {r : Option IoBuf}
    (hcap : b.cap = .m4K) (hlen : b.length = messageHeaderSize)
    (h : writeData (some b) body p = .ok (n, r, p')) : n < 0 ↔ OverLarge body := by
  have hcapacity : b.capacity = MemCap.m4K.size := congrArg MemCap.size hcap
  unfold writeData ensure at h
  rw [ok_bind] at h
  dsimp only at h
  rcases grow_cases b body.length p with
    ⟨hg, -, hi⟩ | ⟨hg, -⟩ | ⟨hg, -⟩ | ⟨b', p₃, hg, -, -⟩
  · rw [hg] at h
    cases h
    refine iff_of_true (by decide) ?_
    rcases BufPool.index_eq_none_iff.mp hi with hneg | hlarge
    · omega
    · rw [hcapacity] at hlarge
      exact_mod_cast hlarge
  · rw [hg] at h
    cases h
  · rw [hg] at h
    cases h
  · have hg' := hg
    rw [hg] at h
    cases h
    refine iff_of_false (by omega) fun hlarge => ?_
    unfold OverLarge at hlarge
    rcases grow_same_or_moved hg' with ⟨hroom, -⟩ | ⟨-, -, hsize, -⟩
    · have hle := MemCap.size_le .m8M
      simp only [hcapacity, MemCap.size] at hroom hlarge
      omega
    · omega

/-- Without a buffer, a frame is refused for its size alone, and nothing is left of it. -/
theorem sendFrame_none {id : Int32} {body : List UInt8} {p p' : BufPool} {n : ℤ}
    {r : Option IoBuf} (h : sendFrame none id body p = .ok (n, r, p')) :
    (n < 0 ↔ OverLarge body) ∧ (n < 0 → r = none) := by
  cases sendsFrame h with
  | headerRefused h₁ hn₁ =>
    obtain ⟨_, _, hok, -⟩ := writeData_header h₁
    exact absurd hn₁ hok
  | @bodyRefused _ _ b _ _ _ _ h₁ _ h₂ hn₂ hpop =>
    obtain ⟨_, hb, -, hcap, hlen⟩ := writeData_header h₁
    cases hb
    refine ⟨iff_of_true (by decide) ((writeData_body hcap hlen h₂).mp hn₂), fun _ => ?_⟩
    -- `pop` takes the header back out, and the buffer is empty without it.
    rw [← hlen, pop_all] at hpop
    cases hpop
    rfl
  | appended h₁ _ h₂ hn₂ =>
    obtain ⟨_, hb, -, hcap, hlen⟩ := writeData_header h₁
    cases hb
    exact ⟨iff_of_false (by decide) (mt (writeData_body hcap hlen h₂).mpr hn₂),
      fun h => absurd h (by decide)⟩

end ReactorBuf

namespace TcpConn

/-- A connection that is not connected is in no table of its loop. -/
def StaysClosed (c : TcpConn) : Prop :=
  c.own.state ≠ .connected → c.own.conns c.fd ≠ some c.own.self ∧
    ∀ ev, c.loop.ioEvsMap c.fd = some ev → ev.calls c.own.self = false

/-- Closed, and nothing since. -/
structure Shut (c : TcpConn) : Prop where
  state : c.own.state ≠ .connected
  obuf : c.obuf = none
  ioEvsMap : c.loop.ioEvsMap c.fd = none
  conns : c.own.conns c.fd = none

/-- Closed, and registered for writing. -/
structure Stale (c : TcpConn) : Prop where
  state : c.own.state ≠ .connected
  registered : ∃ ev, c.loop.ioEvsMap c.fd = some ev ∧
    ev.writeCallback = some (.handleWrite c.own.self)

theorem Shut.staysClosed {c : TcpConn} (h : Shut c) : StaysClosed c := by
  refine fun _ => ⟨?_, fun ev hev => ?_⟩
  · rw [h.conns]
    exact nofun
  · rw [h.ioEvsMap] at hev
    cases hev

theorem Stale.not_staysClosed {c : TcpConn} (h : Stale c) : ¬ StaysClosed c := by
  intro hc
  obtain ⟨ev, hev, hwrite⟩ := h.registered
  have hcalls := (hc h.state).2 ev hev
  rw [IoEvent.calls, hwrite, Bool.or_eq_false_iff] at hcalls
  simp [ConnCallback.self] at hcalls

/-- Closing a connection that is connected shuts it. -/
theorem shut_close {c : TcpConn} (h : c.own.state = .connected) (ctl : Bool) :
    Shut (c.close ctl) := by
  unfold close
  rw [if_neg (not_not.mpr h)]
  refine ⟨nofun, rfl, ?_, Function.update_self ..⟩
  show (c.loop.delIoEvent ctl c.fd).ioEvsMap c.fd = none
  rw [EventLoop.delIoEvent_ioEvsMap, Function.update_self]

theorem close_of_not_connected {c : TcpConn} (h : c.own.state ≠ .connected) (ctl : Bool) :
    c.close ctl = c := if_pos h

/-- A message sent on a connection that is shut registers it, unless it is refused for its size. -/
theorem Shut.send {c c' : TcpConn} (hc : Shut c) {id : Int32} {body : List UInt8} {ctl : Bool}
    {ret : ℤ} (h : Endpoint.send kind id body ctl c = .ok (ret, c')) :
    (OverLarge body → Shut c') ∧ (¬ OverLarge body → Stale c') := by
  cases Endpoint.sends h with
  | barred hmay => cases hmay
  | refused _ hsend hn =>
    rw [hc.obuf] at hsend
    obtain ⟨hneg, hnone⟩ := ReactorBuf.sendFrame_none hsend
    exact ⟨fun _ => ⟨hc.state, hnone hn, hc.ioEvsMap, hc.conns⟩,
      fun hsmall => absurd (hneg.mp hn) hsmall⟩
  | first _ hsend hn =>
    rw [hc.obuf] at hsend
    obtain ⟨hneg, -⟩ := ReactorBuf.sendFrame_none hsend
    exact ⟨fun hlarge => absurd (hneg.mpr hlarge) hn, fun _ => ⟨hc.state, _,
      EventLoop.addIoEvent_new hc.ioEvsMap ctl epollOut (.handleWrite c.own.self), rfl⟩⟩
  | behind _ _ _ hpending =>
    rw [hc.obuf] at hpending
    exact absurd rfl hpending

/-- Nothing but `close` takes the registration away, and `close` does nothing any more. -/
theorem keeps_stale (ctl : Bool) :
    Endpoint.Keeps kind (handleClose ctl) (fun _ => True) Stale where
  input _ _ _ hc := ⟨hc.state, hc.registered⟩
  send c id body ctl' ret c' _ hc h := by
    obtain ⟨ev, hev, hwrite⟩ := hc.registered
    cases Endpoint.sends h with
    | barred => exact hc
    | refused => exact ⟨hc.state, ev, hev, hwrite⟩
    | first =>
      have hreg : (c.loop.addIoEvent ctl' c.fd epollOut (.handleWrite c.own.self)).ioEvsMap c.fd =
          some ⟨ev.event ||| epollOut, ev.readCallback, some (.handleWrite c.own.self)⟩ := by
        rw [EventLoop.addIoEvent_ioEvsMap, Function.update_self, hev]
        rfl
      exact ⟨hc.state, _, hreg, rfl⟩
    | behind => exact ⟨hc.state, ev, hev, hwrite⟩
  close c c' hc h := by
    obtain rfl : close ctl c = c' := Except.ok.inj h
    rw [close_of_not_connected hc.state]
    exact hc

/-! ## User code on a closed connection -/

/-- User code registers a connection that is shut if it sends. -/
theorem Shut.runScript {acts : List UserAct} {c c' : TcpConn} (hc : Shut c)
    (h : Endpoint.runScript kind acts c = .ok c') :
    ((∀ act ∈ acts, act.Quiet) → Shut c') ∧ ((¬ ∀ act ∈ acts, act.Quiet) → Stale c') := by
  induction acts generalizing c with
  | nil =>
    cases h
    exact ⟨fun _ => hc, fun hnot => absurd (fun _ hact => nomatch hact) hnot⟩
  | cons act acts ih =>
    rw [List.forall_mem_cons]
    cases act with
    | send id body ctl =>
      obtain ⟨⟨ret, c₁⟩, hsend, h⟩ := bind_eq_ok.mp h
      obtain ⟨hlarge, hsmall⟩ := hc.send hsend
      by_cases hbody : OverLarge body
      · obtain ⟨hquiet, hloud⟩ := ih (hlarge hbody) h
        exact ⟨fun hacts => hquiet hacts.2, fun hacts => hloud fun hq => hacts ⟨hbody, hq⟩⟩
      · refine ⟨fun hacts => absurd hacts.1 hbody, fun _ => ?_⟩
        exact Endpoint.runScript_keeps (keeps_stale true).input (keeps_stale true).send
          (fun _ _ _ _ => trivial) (hsmall hbody) h
    | other pool =>
      have hpool : Shut { c with pool := pool } := ⟨hc.state, hc.obuf, hc.ioEvsMap, hc.conns⟩
      obtain ⟨hquiet, hloud⟩ := ih hpool h
      exact ⟨fun hacts => hquiet hacts.2, fun hacts => hloud fun hq => hacts ⟨trivial, hq⟩⟩

/-- The handler that a pass calls, if it calls one, sends nothing. -/
def PassQuiet (h : Handlers) (data : IoBuf → ℕ)
    (s : Endpoint.Parsing ConnCallback ConnOwn) : Prop :=
  ∀ m, s.Finds data m → h.registered m.id = true →
    ∀ act ∈ h.script (s.dispatched ++ [m]), act.Quiet

variable {ctl : Bool} {h : Handlers} {data : IoBuf → ℕ}

theorem Shut.pass {s s' : Endpoint.Parsing ConnCallback ConnOwn} (hs : Shut s.conn)
    (hp : Endpoint.parseBody kind (handleClose ctl) h data s = .ok (.next s')) :
    (PassQuiet h data s → Shut s'.conn) ∧ (¬ PassQuiet h data s → Stale s'.conn) := by
  obtain ⟨m, s₁, ibuf, pool, hm, hcall, rfl⟩ := Endpoint.parseBody_next_conn hp
  have honly : ∀ m', s.Finds data m' → m' = m := by
    obtain ⟨b, len, hb, hx⟩ := hm
    rintro m' ⟨b', len', hb', hx'⟩
    obtain rfl : b = b' := Option.some.inj (hb.symm.trans hb')
    cases hx.symm.trans hx'
    rfl
  rcases Endpoint.callHandler_cases hcall with ⟨hreg, conn, hrun, rfl⟩ | ⟨hreg, rfl⟩
  · obtain ⟨hquiet, hloud⟩ := hs.runScript hrun
    constructor
    · intro hpass
      have hconn := hquiet (hpass m hm hreg)
      exact ⟨hconn.state, hconn.obuf, hconn.ioEvsMap, hconn.conns⟩
    · intro hpass
      have hconn := hloud fun hq => hpass fun m' hm' _ => honly m' hm' ▸ hq
      exact ⟨hconn.state, hconn.registered⟩
  · refine ⟨fun _ => ⟨hs.state, hs.obuf, hs.ioEvsMap, hs.conns⟩, fun hpass => absurd ?_ hpass⟩
    exact fun m' hm' hreg' => absurd (honly m' hm' ▸ hreg') hreg

theorem Shut.leave {s r : Endpoint.Parsing ConnCallback ConnOwn} (hs : Shut s.conn)
    (hp : Endpoint.parseBody kind (handleClose ctl) h data s = .ok (.leave r)) :
    Shut r.conn ∧ PassQuiet h data s := by
  refine ⟨?_, fun m hm => absurd hp hm.not_leave⟩
  rcases Endpoint.parseBody_leave hp with rfl | ⟨conn, hclose, rfl⟩
  · exact hs
  · obtain rfl : close ctl s.conn = conn := Except.ok.inj hclose
    rw [close_of_not_connected hs.state]
    exact hs

/-- The handlers that a parse loop calls send nothing. -/
def LoopQuiet (ctl : Bool) (h : Handlers) (data : IoBuf → ℕ)
    (s : Endpoint.Parsing ConnCallback ConnOwn) : Prop :=
  ∀ s', Reaches (Endpoint.parseBody kind (handleClose ctl) h data) s s' → PassQuiet h data s'

/-- The parse loop on a connection that is shut registers it if some handler it calls sends. -/
theorem Shut.loop {s r : Endpoint.Parsing ConnCallback ConnOwn} (hs : Shut s.conn)
    (hloop : Machine.loop (Endpoint.parseBody kind (handleClose ctl) h data)
      (Endpoint.parseBody_decreases (handleClose ctl) h data) s = .ok r) :
    (LoopQuiet ctl h data s → Shut r.conn) ∧ (¬ LoopQuiet ctl h data s → Stale r.conn) := by
  constructor
  · intro hquiet
    refine loop_invariant _ (I := fun s' => Shut s'.conn ∧
        Reaches (Endpoint.parseBody kind (handleClose ctl) h data) s s')
      (Q := fun r => Shut r.conn) ?_ ?_ ⟨hs, .refl s⟩ hloop
    · rintro s₁ s₂ ⟨hs₁, hreach⟩ hp
      exact ⟨(hs₁.pass hp).1 (hquiet s₁ hreach), hreach.snoc hp⟩
    · rintro s₁ r ⟨hs₁, -⟩ hp
      exact (hs₁.leave hp).1
  · intro hloud
    unfold LoopQuiet at hloud
    push Not at hloud
    obtain ⟨s', hreach, hpass⟩ := hloud
    induction hreach with
    | refl s =>
      rw [loop_eq] at hloop
      split at hloop
      · cases hloop
      · next r' hp => exact absurd (hs.leave hp).2 hpass
      · next s₁ hp =>
        exact (keeps_stale ctl).loop (fun _ _ _ _ _ => trivial) ((hs.pass hp).2 hpass) hloop
    | @next s s₁ s' hp _ ih =>
      rw [loop_next _ hp] at hloop
      by_cases hfirst : PassQuiet h data s
      · exact ih ((hs.pass hp).1 hfirst) hloop hpass
      · exact (keeps_stale ctl).loop (fun _ _ _ _ _ => trivial) ((hs.pass hp).2 hfirst) hloop

/-! ## The events of a connection -/

/-- The handlers that a call of `handle_read` calls send nothing. -/
def ReadQuiet (ctl : Bool) (k : KernelRead) (h : Handlers) (c : TcpConn) : Prop :=
  ∀ n ibuf pool, ReactorBuf.readData c.ibuf k c.pool = .ok (n, ibuf, pool) → 0 < n →
    LoopQuiet ctl h (fun _ => ReactorBuf.data ibuf) ⟨{ c with ibuf := ibuf, pool := pool }, []⟩

/-- `handle_read` on a connection that is shut registers it if some handler it calls sends. -/
theorem Shut.handleRead {k : KernelRead} {c c' : TcpConn} {o : ReadOutcome} (hc : Shut c)
    (hread : TcpConn.handleRead ctl k h c = .ok (o, c')) :
    (ReadQuiet ctl k h c → Shut c') ∧ (¬ ReadQuiet ctl k h c → Stale c') := by
  have hin : ∀ ibuf pool, Shut { c with ibuf := ibuf, pool := pool } :=
    fun _ _ => ⟨hc.state, hc.obuf, hc.ioEvsMap, hc.conns⟩
  cases Endpoint.reads hread with
  | @closed n ibuf pool _ hdata hn hclose =>
    -- Without data no handler is called, and there is nothing to close.
    have hquiet : ReadQuiet ctl k h c := by
      rintro n' ibuf' pool' hdata' hn'
      cases hdata.symm.trans hdata'
      omega
    obtain rfl := Except.ok.inj hclose
    rw [close_of_not_connected (hin ibuf pool).state]
    exact ⟨fun _ => hin ibuf pool, fun hloud => absurd hquiet hloud⟩
  | @parsed n ibuf pool s hdata hn hloop =>
    obtain ⟨hquiet, hloud⟩ := Shut.loop (hin ibuf pool) hloop
    constructor
    · intro hread
      have hs := hquiet (hread n ibuf pool hdata hn)
      exact ⟨hs.state, hs.obuf, hs.ioEvsMap, hs.conns⟩
    · intro hread
      have hs := hloud fun hq => hread fun n' ibuf' pool' hdata' _ => by
        cases hdata.symm.trans hdata'
        exact hq
      exact ⟨hs.state, hs.registered⟩

/-- Connected, or closed and nothing since. -/
def Sound (c : TcpConn) : Prop := c.own.state = .connected ∨ Shut c

theorem Sound.staysClosed {c : TcpConn} (h : Sound c) : StaysClosed c :=
  h.elim (fun hconn hnot => absurd hconn hnot) Shut.staysClosed

theorem sound_close (ctl : Bool) {c : TcpConn} (h : Sound c) : Sound (c.close ctl) := by
  rcases h with hconn | hshut
  · exact Or.inr (shut_close hconn ctl)
  · rw [close_of_not_connected hshut.state]
    exact Or.inr hshut

/-- User code leaves a connection connected, and closing shuts it. -/
theorem leads_shut (ctl : Bool) :
    Endpoint.Leads kind (handleClose ctl) (fun c => c.own.state = .connected) Shut where
  input _ _ _ hc := hc
  send _ _ _ _ _ _ hc h := (congrArg ConnOwn.state (Endpoint.send_untouched h).own_eq).trans hc
  close c c' hc h := by
    obtain rfl : close ctl c = c' := Except.ok.inj h
    exact shut_close hc ctl
  closed _ _ hc := ⟨hc.state, hc.obuf, hc.ioEvsMap, hc.conns⟩

/-- `handle_write` keeps a connection sound: on one that is shut it finds nothing to write, and no
registration. -/
theorem sound_handleWrite {answers : List WriteAnswer} {c c' : TcpConn} {l : List UInt8}
    (hc : Sound c) (hwrite : TcpConn.handleWrite ctl answers c = .ok (l, c')) : Sound c' := by
  obtain ⟨failed, d, c₁, hdrain, hfailed, hlast⟩ := Endpoint.handleWrite_cases hwrite
  have hd : Sound { c with obuf := d.buf } := by
    rcases hc with hconn | hshut
    · exact Or.inl hconn
    · refine Or.inr ⟨hshut.state, ?_, hshut.ioEvsMap, hshut.conns⟩
      rw [hshut.obuf, ReactorBuf.drain, loop_eq] at hdrain
      cases hdrain
      rfl
  have hc₁ : Sound c₁ := by
    rcases hfailed with ⟨-, hclose⟩ | ⟨-, rfl⟩
    · obtain rfl := Except.ok.inj hclose
      exact sound_close ctl hd
    · exact hd
  rcases hlast with rfl | rfl
  · rcases hc₁ with hconn | hshut
    · exact Or.inl hconn
    · have hsame : c₁.loop.delIoEventMask ctl c₁.fd epollOut = c₁.loop := by
        rw [EventLoop.delIoEventMask, hshut.ioEvsMap]
      rw [hsame]
      exact Or.inr hshut
  · exact hc₁

/-! ## Operations -/

/-- What an `on_build` callback can do that has the `tcp_conn` itself: it can also close. -/
inductive BuildAct
  | user (act : UserAct)
  | close (ctl : Bool)

/-- A run of such a callback. -/
def runBuild : List BuildAct → TcpConn → Except Halt TcpConn
  | [], c => .ok c
  | .user act :: acts, c => do
    let c ← Endpoint.runScript kind [act] c
    runBuild acts c
  | .close ctl :: acts, c => runBuild acts (c.close ctl)

/-- `tcp_conn::listen_read`, with such a callback. -/
def listenReadBuild (ctl : Bool) (onBuild : List BuildAct) (c : TcpConn) : Except Halt TcpConn := do
  let c := { c with loop := c.loop.addIoEvent ctl c.fd epollIn (.handleRead c.own.self) }
  let c ← runBuild onBuild c
  .ok { c with own := { c.own with conns := Function.update c.own.conns c.fd (some c.own.self) } }

/-- With a callback that does not close it is `listenRead`. -/
theorem listenReadBuild_user (ctl : Bool) (acts : List UserAct) (c : TcpConn) :
    listenReadBuild ctl (acts.map .user) c = listenRead ctl acts c := by
  have hrun : ∀ (acts : List UserAct) (c : TcpConn),
      runBuild (acts.map .user) c = Endpoint.runScript kind acts c := by
    intro acts
    induction acts with
    | nil => exact fun c => rfl
    | cons act acts ih =>
      intro c
      rw [List.map_cons, runBuild]
      simp only [ih]
      cases act with
      | send id body ctl =>
        simp only [Endpoint.runScript]
        cases Endpoint.send kind id body ctl c <;> rfl
      | other pool => rfl
  unfold listenReadBuild listenRead
  simp only [hrun]

/-- An operation on a connection, in its loop. -/
inductive Operation
  | listenRead (onBuild : List BuildAct)
  | close
  | call (call : Call)

/-- An operation, with the pool as other connections have left it and the answer of `epoll_ctl`. -/
structure Operating where
  operation : Operation
  pool : BufPool
  ctl : Bool

/-- An operation on the connection. -/
def operate (c : TcpConn) (op : Operating) : Except Halt (Shown × TcpConn) :=
  match op.operation with
  | .listenRead onBuild => do
    let c ← listenReadBuild op.ctl onBuild { c with pool := op.pool }
    .ok (.done, c)
  | .close => .ok (.done, TcpConn.close op.ctl { c with pool := op.pool })
  | .call call => step c ⟨call, op.pool, op.ctl⟩

/-- The operation makes no use of a connection that is not connected: `listen_read` is called for
one that is, with a callback that does not close it; on one that is not, nothing is sent that a
buffer takes, by `send` or by a handler that `handle_read` calls. -/
def Admissible (c : TcpConn) (op : Operating) : Prop :=
  match op.operation with
  | .listenRead onBuild => c.own.state = .connected ∧ ∀ ctl, .close ctl ∉ onBuild
  | .close => True
  | .call (.handleRead k h) =>
    c.own.state = .connected ∨ ReadQuiet op.ctl k h { c with pool := op.pool }
  | .call (.handleWrite _) => True
  | .call (.send _ body) => c.own.state = .connected ∨ OverLarge body

/-- A callback leaves a connection connected unless it closes it. -/
theorem runBuild_state {onBuild : List BuildAct} {c c' : TcpConn}
    (h : runBuild onBuild c = .ok c') :
    c'.fd = c.fd ∧ c'.own.self = c.own.self ∧
      (c'.own.state = .connected ↔ c.own.state = .connected ∧ ∀ ctl, .close ctl ∉ onBuild) := by
  induction onBuild generalizing c with
  | nil =>
    cases h
    simp
  | cons act acts ih =>
    cases act with
    | user act =>
      obtain ⟨c₁, hrun, h⟩ := bind_eq_ok.mp h
      have hun := Endpoint.runScript_untouched hrun
      obtain ⟨hfd, hself, hstate⟩ := ih h
      rw [hun.own_eq] at hself hstate
      refine ⟨hfd.trans hun.fd_eq, hself, hstate.trans (and_congr_right fun _ => ?_)⟩
      simp
    | close ctl =>
      obtain ⟨hfd, hself, hstate⟩ := ih h
      have hnot : (c.close ctl).own.state ≠ .connected := by
        by_cases hc : c.own.state = .connected
        · exact (shut_close hc ctl).state
        · rwa [close_of_not_connected hc]
      have hsame : (c.close ctl).fd = c.fd ∧ (c.close ctl).own.self = c.own.self := by
        unfold close
        split_ifs <;> exact ⟨rfl, rfl⟩
      refine ⟨hfd.trans hsame.1, hself.trans hsame.2, iff_of_false ?_ fun h => ?_⟩
      · exact fun h => hnot (hstate.mp h).1
      · exact h.2 ctl List.mem_cons_self

/-- `listen_read` puts the connection in the table in any case. -/
theorem listenReadBuild_sound {onBuild : List BuildAct} {c c' : TcpConn}
    (h : listenReadBuild ctl onBuild c = .ok c') :
    (c.own.state = .connected ∧ (∀ ctl, .close ctl ∉ onBuild) → Sound c') ∧
      (StaysClosed c' → c.own.state = .connected ∧ ∀ ctl, .close ctl ∉ onBuild) := by
  obtain ⟨c₁, hrun, h⟩ := bind_eq_ok.mp h
  obtain ⟨-, -, hstate⟩ := runBuild_state hrun
  cases h
  refine ⟨fun hok => Or.inl (hstate.mpr hok), fun hstays => ?_⟩
  by_contra hbad
  exact (hstays (mt hstate.mp hbad)).1 (Function.update_self ..)

/-- **One operation** on a connection that is connected or shut: if it is admissible it leaves it
so, and if it is not it leaves a connection that is not connected in a table. -/
theorem operate_sound {c c' : TcpConn} {op : Operating} {o : Shown} (hc : Sound c)
    (h : operate c op = .ok (o, c')) :
    (Admissible c op → Sound c') ∧ (StaysClosed c' → Admissible c op) := by
  have hpool : Sound { c with pool := op.pool } :=
    hc.imp_right fun hs => ⟨hs.state, hs.obuf, hs.ioEvsMap, hs.conns⟩
  obtain ⟨operation, pool, ctl⟩ := op
  cases operation with
  | listenRead onBuild =>
    obtain ⟨c₁, hlisten, h⟩ := bind_eq_ok.mp h
    cases h
    exact listenReadBuild_sound (c := { c with pool := pool }) hlisten
  | close =>
    cases h
    exact ⟨fun _ => sound_close ctl hpool, fun _ => trivial⟩
  | call call =>
    rcases step_cases h with ⟨k, hs, r, hcall, hread⟩ | ⟨answers, l, hcall, hwrite⟩ |
      ⟨id, body, ret, hcall, hsend⟩
    · obtain rfl : call = .handleRead k hs := hcall
      rcases hpool with hconn | hshut
      · exact ⟨fun _ => (leads_shut ctl).handleRead hconn hread, fun _ => Or.inl hconn⟩
      · obtain ⟨hquiet, hloud⟩ := hshut.handleRead hread
        refine ⟨fun hok => Or.inr (hquiet (hok.resolve_left hshut.state)), fun hstays => ?_⟩
        exact Or.inr (not_not.mp fun hq => (hloud hq).not_staysClosed hstays)
    · obtain rfl : call = .handleWrite answers := hcall
      exact ⟨fun _ => sound_handleWrite hpool hwrite, fun _ => trivial⟩
    · obtain rfl : call = .send id body := hcall
      rcases hpool with hconn | hshut
      · have hconn' := (leads_shut ctl).send _ _ _ _ _ _ hconn hsend
        exact ⟨fun _ => Or.inl hconn', fun _ => Or.inl hconn⟩
      · obtain ⟨hlarge, hsmall⟩ := hshut.send hsend
        refine ⟨fun hok => Or.inr (hlarge (hok.resolve_left hshut.state)), fun hstays => ?_⟩
        exact Or.inr (not_not.mp fun hbody => (hsmall hbody).not_staysClosed hstays)

/-- After an operation, a connection that was connected or shut is in no table without being
connected, if and only if the operation was admissible. -/
theorem staysClosed_operate_iff {c c' : TcpConn} {op : Operating} {o : Shown} (hc : Sound c)
    (h : operate c op = .ok (o, c')) : StaysClosed c' ↔ Admissible c op :=
  ⟨(operate_sound hc h).2, fun hok => ((operate_sound hc h).1 hok).staysClosed⟩

/-- **A closed connection stays closed**: after every operation of a sequence of admissible ones, a
connection is in its loop's tables only if it is connected. -/
theorem staysClosed_of_run {self : ℕ} {fd : ℤ} {loop : EventLoop ConnCallback}
    {conns : ℤ → Option ℕ} {pool : BufPool} {ops : List Operating} {outs : List Shown}
    {c : TcpConn} (hops : Along operate Admissible (new self fd loop conns pool) ops)
    (hrun : Machine.run operate (new self fd loop conns pool) ops = .ok (outs, c)) :
    StaysClosed c := by
  have hsound : Sound c :=
    run_invariant_along (P := Sound) (fun c op o c' hc hok h => (operate_sound hc h).1 hok)
      (Or.inl rfl) hops hrun
  exact hsound.staysClosed

/-- A connection that sends in `on_build`, is closed, and then gets a write event that was due. -/
theorem staysClosed_short : ∃ outs c,
    Machine.run operate (new 1 5 {} (fun _ => none) (.ofCounts fun _ => 2))
      [⟨.listenRead [.user (.send 1 [104] true)], .ofCounts fun _ => 2, true⟩,
        ⟨.close, .ofCounts fun _ => 2, true⟩,
        ⟨.call (.handleWrite []), .ofCounts fun _ => 2, true⟩] = .ok (outs, c) ∧ StaysClosed c := by
  have hrun : Machine.run operate (new 1 5 {} (fun _ => none) (.ofCounts fun _ => 2))
      [⟨.listenRead [.user (.send 1 [104] true)], .ofCounts fun _ => 2, true⟩,
        ⟨.close, .ofCounts fun _ => 2, true⟩,
        ⟨.call (.handleWrite []), .ofCounts fun _ => 2, true⟩] = .ok (_, _) := rfl
  refine ⟨_, _, hrun, staysClosed_of_run ?_ hrun⟩
  exact along_cons ⟨rfl, by simp⟩ (along_cons trivial (along_cons trivial (along_nil _ _)))

/-- A message sent after `close` registers `handle_write`. -/
theorem not_staysClosed : ¬ ∀ (ops : List Operating) (outs : List Shown) (c : TcpConn),
    Machine.run operate (new 1 5 {} (fun _ => none) (.ofCounts fun _ => 2)) ops = .ok (outs, c) →
      StaysClosed c := by
  intro h
  have hstays := h [⟨.listenRead [], .ofCounts fun _ => 2, true⟩,
    ⟨.close, .ofCounts fun _ => 2, true⟩,
    ⟨.call (.send 1 [104]), .ofCounts fun _ => 2, true⟩] _ _ rfl
  have hcalls := (hstays nofun).2 _ rfl
  revert hcalls
  decide

end TcpConn

end Lars.Reactor
