import Lars.Reactor.EventLoop
import Lars.Reactor.ReactorBuf

/-!
# The two ends of a TCP connection

`tcp_conn` (the server's end) and `tcp_client` repeat the same code on the same members: the socket,
the two buffers, and the loop they register with. `Endpoint` is these members with the process's
buffer pool, and `own` is what a class has besides. `send`, `handleRead` and `handleWrite` are the
code the classes repeat; `Kind` and the remaining parameters are where they differ.

User code (a message handler, an `on_build` or `on_close` callback) reaches an endpoint only
through `net_connection`, whose one operation is `send`; what else it does shows in the buffer pool.
Its run is a list of `UserAct`.
-/

namespace Lars.Reactor

open Machine

/-- What user code can do to an endpoint: send on it, with the answer of `epoll_ctl`, or leave
another pool. -/
inductive UserAct
  | send (id : Int32) (body : List UInt8) (ctl : Bool)
  | other (pool : BufPool)

/-- `handler_map`: which ids have a handler, and what the handler does in the last of the calls made
so far. -/
structure Handlers where
  registered : Int32 → Bool
  script : List Dispatch → List UserAct

/-- An endpoint with callbacks `κ` and its class's own members `ω`. -/
structure Endpoint (κ ω : Type) where
  fd : ℤ
  ibuf : Option IoBuf
  obuf : Option IoBuf
  loop : EventLoop κ
  pool : BufPool
  own : ω

/-- Where the classes differ in `send`: the condition it starts with, and the callback it
registers. -/
structure Kind (κ ω : Type) where
  maySend : ω → Bool
  onWrite : ω → κ

/-- What a call of `handle_read` shows: the value of `read_data`, and the handlers called. -/
structure ReadOutcome where
  hasRead : ℤ
  dispatched : List Dispatch
  deriving DecidableEq

/-- What a call on an endpoint shows. -/
inductive Shown
  | read (o : ReadOutcome)
  | wrote (accepted : List UInt8)
  | sent (ret : ℤ)
  | done
  deriving DecidableEq

/-- The bytes a call has got accepted by the socket. -/
def Shown.accepted : Shown → List UInt8
  | .wrote l => l
  | _ => []

namespace Endpoint

variable {κ ω : Type} (K : Kind κ ω)

/-- `tcp_conn::send` and `tcp_client::send`. -/
def send (id : Int32) (body : List UInt8) (ctl : Bool) (e : Endpoint κ ω) :
    Except Halt (ℤ × Endpoint κ ω) :=
  if !K.maySend e.own then .ok (-1, e)
  else do
    let activateEpollout := ReactorBuf.length e.obuf = 0
    let (ret, obuf, pool) ← ReactorBuf.sendFrame e.obuf id body e.pool
    let e := { e with obuf := obuf, pool := pool }
    if ret < 0 then .ok (-1, e)
    else if activateEpollout then
      .ok (0, { e with loop := e.loop.addIoEvent ctl e.fd epollOut (K.onWrite e.own) })
    else .ok (0, e)

/-- A run of user code. -/
def runScript : List UserAct → Endpoint κ ω → Except Halt (Endpoint κ ω)
  | [], e => .ok e
  | .send id body ctl :: acts, e => do
    let (_, e) ← send K id body ctl e
    runScript acts e
  | .other pool :: acts, e => runScript acts { e with pool := pool }

/-- The state of a parse loop: the endpoint, and the handlers called so far. -/
structure Parsing (κ ω : Type) where
  conn : Endpoint κ ω
  dispatched : List Dispatch

/-- A pass finds the message `m`. -/
def Parsing.Finds (data : IoBuf → ℕ) (s : Parsing κ ω) (m : Dispatch) : Prop :=
  ∃ b len, s.conn.ibuf = some b ∧ examine b.data (data b) b.length = .message len m

/-- The call of the handler of a message, if there is one. -/
def callHandler (h : Handlers) (m : Dispatch) (s : Parsing κ ω) : Except Halt (Parsing κ ω) :=
  if h.registered m.id then do
    let dispatched := s.dispatched ++ [m]
    let conn ← runScript K (h.script dispatched) s.conn
    .ok ⟨conn, dispatched⟩
  else .ok s

/-- A pass of the parse loop of `handle_read`: `data` says where in the buffer's block the header is
read, and `close` is called on a length out of range. -/
def parseBody (close : Endpoint κ ω → Except Halt (Endpoint κ ω)) (h : Handlers)
    (data : IoBuf → ℕ) (s : Parsing κ ω) : Except Halt (Pass (Parsing κ ω) (Parsing κ ω)) :=
  match s.conn.ibuf with
  | none => .ok (.leave s)
  | some b =>
    match examine b.data (data b) b.length with
    | .wait => .ok (.leave s)
    | .bad => do
      let conn ← close s.conn
      .ok (.leave { s with conn := conn })
    | .negative _ => .error .undefined
    | .message len m => do
      let s ← callHandler K h m s
      let (ibuf, pool) ← ReactorBuf.pop s.conn.ibuf len s.conn.pool
      .ok (.next { s with conn := { s.conn with ibuf := ibuf, pool := pool } })

variable {K}

/-- What user code leaves alone: all but the output buffer, the registrations and the pool. -/
structure Untouched (e e' : Endpoint κ ω) : Prop where
  fd_eq : e'.fd = e.fd
  ibuf_eq : e'.ibuf = e.ibuf
  own_eq : e'.own = e.own

theorem Untouched.refl (e : Endpoint κ ω) : Untouched e e := ⟨rfl, rfl, rfl⟩

theorem Untouched.trans {e₁ e₂ e₃ : Endpoint κ ω} (h : Untouched e₁ e₂) (h' : Untouched e₂ e₃) :
    Untouched e₁ e₃ :=
  ⟨h'.fd_eq.trans h.fd_eq, h'.ibuf_eq.trans h.ibuf_eq, h'.own_eq.trans h.own_eq⟩

/-- What a `send` does: it may not start, or gets no buffer, or appends a frame, as the first of the
buffer or behind others. -/
inductive Sends (K : Kind κ ω) (id : Int32) (body : List UInt8) (ctl : Bool) (e : Endpoint κ ω) :
    ℤ → Endpoint κ ω → Prop
  | barred (hmay : K.maySend e.own = false) : Sends K id body ctl e (-1) e
  | refused {n : ℤ} {obuf : Option IoBuf} {pool : BufPool} (hmay : K.maySend e.own = true)
    (h : ReactorBuf.sendFrame e.obuf id body e.pool = .ok (n, obuf, pool)) (hn : n < 0) :
    Sends K id body ctl e (-1) { e with obuf := obuf, pool := pool }
  | first {n : ℤ} {obuf : Option IoBuf} {pool : BufPool} (hmay : K.maySend e.own = true)
    (h : ReactorBuf.sendFrame e.obuf id body e.pool = .ok (n, obuf, pool)) (hn : ¬ n < 0)
    (hempty : ReactorBuf.length e.obuf = 0) :
    Sends K id body ctl e 0 { e with
      obuf := obuf
      pool := pool
      loop := e.loop.addIoEvent ctl e.fd epollOut (K.onWrite e.own) }
  | behind {n : ℤ} {obuf : Option IoBuf} {pool : BufPool} (hmay : K.maySend e.own = true)
    (h : ReactorBuf.sendFrame e.obuf id body e.pool = .ok (n, obuf, pool)) (hn : ¬ n < 0)
    (hpending : ReactorBuf.length e.obuf ≠ 0) :
    Sends K id body ctl e 0 { e with obuf := obuf, pool := pool }

theorem sends {id : Int32} {body : List UInt8} {ctl : Bool} {e e' : Endpoint κ ω} {ret : ℤ}
    (h : send K id body ctl e = .ok (ret, e')) : Sends K id body ctl e ret e' := by
  unfold send at h
  split_ifs at h with hmay
  · cases h
    exact .barred (by simpa using hmay)
  · have hmay : K.maySend e.own = true := by simpa using hmay
    obtain ⟨⟨n, obuf, pool⟩, hsend, h⟩ := bind_eq_ok.mp h
    dsimp only at h
    split_ifs at h with hneg hempty <;> cases h
    · exact .refused hmay hsend hneg
    · exact .first hmay hsend hneg hempty
    · exact .behind hmay hsend hneg hempty

theorem send_untouched {id : Int32} {body : List UInt8} {ctl : Bool} {e e' : Endpoint κ ω} {ret : ℤ}
    (h : send K id body ctl e = .ok (ret, e')) : Untouched e e' := by
  cases sends h <;> exact ⟨rfl, rfl, rfl⟩

theorem runScript_untouched {acts : List UserAct} {e e' : Endpoint κ ω}
    (h : runScript K acts e = .ok e') : Untouched e e' := by
  induction acts generalizing e with
  | nil =>
    cases h
    exact .refl _
  | cons act acts ih =>
    cases act with
    | send id body ctl =>
      obtain ⟨⟨ret, e₁⟩, hsend, h⟩ := bind_eq_ok.mp h
      exact (send_untouched hsend).trans (ih h)
    | other pool =>
      obtain ⟨h₁, h₂, h₃⟩ := ih (e := { e with pool := pool }) h
      exact ⟨h₁, h₂, h₃⟩

/-- What the call of a handler does, if there is one. -/
theorem callHandler_cases {h : Handlers} {m : Dispatch} {s s' : Parsing κ ω}
    (hc : callHandler K h m s = .ok s') :
    (h.registered m.id = true ∧ ∃ conn,
      runScript K (h.script (s.dispatched ++ [m])) s.conn = .ok conn ∧
        s' = ⟨conn, s.dispatched ++ [m]⟩) ∨
    ¬ h.registered m.id = true ∧ s' = s := by
  unfold callHandler at hc
  split_ifs at hc with hreg
  · obtain ⟨conn, hrun, hc⟩ := bind_eq_ok.mp hc
    exact Or.inl ⟨hreg, conn, hrun, (Except.ok.inj hc).symm⟩
  · exact Or.inr ⟨hreg, (Except.ok.inj hc).symm⟩

theorem callHandler_untouched {h : Handlers} {m : Dispatch} {s s' : Parsing κ ω}
    (hc : callHandler K h m s = .ok s') : Untouched s.conn s'.conn := by
  rcases callHandler_cases hc with ⟨-, conn, hrun, rfl⟩ | ⟨-, rfl⟩
  · exact runScript_untouched hrun
  · exact .refl _

/-- How `send` can end the process. -/
theorem send_error (K : Kind κ ω) (id : Int32) (body : List UInt8) (ctl : Bool)
    (e : Endpoint κ ω) :
    ExitsOrOverreads (send K id body ctl e) ∨ ∃ o, send K id body ctl e = .ok o := by
  unfold send
  split_ifs with hmay
  · exact Or.inr ⟨_, rfl⟩
  rcases ReactorBuf.sendFrame_error e.obuf id body e.pool with h | ⟨⟨ret, obuf, pool⟩, h⟩
  · exact Or.inl (h.bind _)
  rw [h, ok_bind]
  dsimp only
  split_ifs <;> exact Or.inr ⟨_, rfl⟩

/-- User code can only end the process in a `send`. -/
theorem runScript_error (K : Kind κ ω) (acts : List UserAct) (e : Endpoint κ ω) :
    ExitsOrOverreads (runScript K acts e) ∨ ∃ e', runScript K acts e = .ok e' := by
  induction acts generalizing e with
  | nil => exact Or.inr ⟨e, rfl⟩
  | cons act acts ih =>
    cases act with
    | send id body ctl =>
      rcases send_error K id body ctl e with h | ⟨⟨ret, e₁⟩, h⟩
      · exact Or.inl (h.bind _)
      · rw [runScript, h, ok_bind]
        exact ih e₁
    | other pool => exact ih { e with pool := pool }

/-- A pass on a message: its handler is called, if it has one, and the message popped, unless the
process ends in the handler. -/
theorem parseBody_message (close : Endpoint κ ω → Except Halt (Endpoint κ ω)) {h : Handlers}
    (data : IoBuf → ℕ) {s : Parsing κ ω} {b : IoBuf} {len : ℕ} {m : Dispatch}
    (hb : s.conn.ibuf = some b) (hx : examine b.data (data b) b.length = .message len m)
    (hlen : len ≤ b.length) :
    ExitsOrOverreads (parseBody K close h data s) ∨
    ∃ s', parseBody K close h data s = .ok (.next s') ∧
      s'.dispatched = s.dispatched ++ (if h.registered m.id then [m] else []) ∧
      ReactorBuf.contents s'.conn.ibuf = b.contents.drop len ∧
      (s'.conn.ibuf = none ∨ s'.conn.ibuf = some (b.pop len)) ∧ s'.conn.own = s.conn.own := by
  have hcall : ExitsOrOverreads (callHandler K h m s) ∨ ∃ s₁, callHandler K h m s = .ok s₁ ∧
      s₁.dispatched = s.dispatched ++ (if h.registered m.id then [m] else []) := by
    unfold callHandler
    split_ifs with hreg
    · dsimp only
      rcases runScript_error K (h.script (s.dispatched ++ [m])) s.conn with hrun | ⟨conn, hrun⟩
      · exact Or.inl (hrun.bind _)
      · exact Or.inr ⟨⟨conn, s.dispatched ++ [m]⟩, by rw [hrun]; rfl, rfl⟩
    · exact Or.inr ⟨s, rfl, (List.append_nil _).symm⟩
  unfold parseBody
  simp only [hb, hx]
  rcases hcall with hcall | ⟨s₁, hcall, hd⟩
  · exact Or.inl (hcall.bind _)
  · have hun := callHandler_untouched hcall
    have hibuf := hun.ibuf_eq.trans hb
    obtain ⟨r', p', hpop, hc, hr'⟩ := ReactorBuf.pop_eq hlen s₁.conn.pool
    exact Or.inr ⟨{ s₁ with conn := { s₁.conn with ibuf := r', pool := p' } },
      by simp only [hcall, ok_bind, hibuf, hpop], hd, hc, hr', hun.own_eq⟩

/-- A pass on a message without a handler pops it, and does nothing else. -/
theorem parseBody_ignored (close : Endpoint κ ω → Except Halt (Endpoint κ ω)) {h : Handlers}
    (data : IoBuf → ℕ) {s : Parsing κ ω} {b : IoBuf} {len : ℕ} {m : Dispatch}
    (hb : s.conn.ibuf = some b) (hx : examine b.data (data b) b.length = .message len m)
    (hlen : len ≤ b.length) (hreg : h.registered m.id = false) :
    ∃ ibuf pool,
      parseBody K close h data s =
        .ok (.next { s with conn := { s.conn with ibuf := ibuf, pool := pool } }) ∧
      ReactorBuf.contents ibuf = b.contents.drop len ∧ (ibuf = none ∨ ibuf = some (b.pop len)) := by
  obtain ⟨ibuf, pool, hpop, hc, hibuf⟩ := ReactorBuf.pop_eq hlen s.conn.pool
  have hcall : callHandler K h m s = .ok s := by
    simp [callHandler, hreg]
  refine ⟨ibuf, pool, ?_, hc, hibuf⟩
  unfold parseBody
  simp only [hb, hx, hcall, ok_bind, hpop]

/-- A pass that finds nothing to do leaves the loop. -/
theorem parseBody_wait (close : Endpoint κ ω → Except Halt (Endpoint κ ω)) (h : Handlers)
    {data : IoBuf → ℕ} {s : Parsing κ ω}
    (hw : ∀ b, s.conn.ibuf = some b → examine b.data (data b) b.length = .wait) :
    parseBody K close h data s = .ok (.leave s) := by
  unfold parseBody
  cases hb : s.conn.ibuf with
  | none => rfl
  | some b => simp only [hw b hb]

/-- What a pass that goes on has done: it found a message within the buffered bytes, of a header's
length at least, and popped it. -/
theorem parseBody_next {close : Endpoint κ ω → Except Halt (Endpoint κ ω)} {h : Handlers}
    {data : IoBuf → ℕ} {s s' : Parsing κ ω} (hp : parseBody K close h data s = .ok (.next s')) :
    ∃ b len m, s.conn.ibuf = some b ∧ examine b.data (data b) b.length = .message len m ∧
      messageHeaderSize ≤ len ∧ len ≤ b.length ∧
      ReactorBuf.contents s'.conn.ibuf = b.contents.drop len ∧
      (s'.conn.ibuf = none ∨ s'.conn.ibuf = some (b.pop len)) := by
  have hp' := hp
  unfold parseBody at hp
  cases hb : s.conn.ibuf with
  | none => simp [hb] at hp
  | some b =>
    simp only [hb] at hp
    cases hx : examine b.data (data b) b.length with
    | wait => simp [hx] at hp
    | bad =>
      simp only [hx] at hp
      obtain ⟨conn, -, hp⟩ := bind_eq_ok.mp hp
      simp at hp
    | negative n => simp [hx] at hp
    | message len m =>
      obtain ⟨hle, hlen, -⟩ := find_message (examine_eq_find _ _ _ ▸ hx)
      rw [Memory.length_load] at hlen
      rcases parseBody_message (K := K) close data hb hx hlen with he | ⟨s₁, he, -, hc, hr, -⟩
      · exact absurd hp' (he.ne_ok _)
      · cases he.symm.trans hp'
        exact ⟨b, len, m, rfl, hx, hle, hlen, hc, hr⟩

/-- What a pass that goes on leaves outside the input buffer and the pool is the doing of the
handler of the message it has found. -/
theorem parseBody_next_conn {close : Endpoint κ ω → Except Halt (Endpoint κ ω)} {h : Handlers}
    {data : IoBuf → ℕ} {s s' : Parsing κ ω} (hp : parseBody K close h data s = .ok (.next s')) :
    ∃ m s₁ ibuf pool, s.Finds data m ∧ callHandler K h m s = .ok s₁ ∧
      s' = { s₁ with conn := { s₁.conn with ibuf := ibuf, pool := pool } } := by
  unfold parseBody at hp
  split at hp
  · cases hp
  · rename_i b hb
    split at hp
    · cases hp
    · obtain ⟨_, -, hp⟩ := bind_eq_ok.mp hp
      cases hp
    · cases hp
    · rename_i len m hx
      obtain ⟨s₁, hcall, hp⟩ := bind_eq_ok.mp hp
      obtain ⟨⟨ibuf, pool⟩, -, hp⟩ := bind_eq_ok.mp hp
      cases hp
      exact ⟨m, s₁, ibuf, pool, ⟨b, len, hb, hx⟩, hcall, rfl⟩

/-- A pass that has found a message does not leave the loop. -/
theorem Parsing.Finds.not_leave {close : Endpoint κ ω → Except Halt (Endpoint κ ω)} {h : Handlers}
    {data : IoBuf → ℕ} {s r : Parsing κ ω} {m : Dispatch} (hm : s.Finds data m) :
    parseBody K close h data s ≠ .ok (.leave r) := by
  obtain ⟨b, len, hb, hx⟩ := hm
  intro hp
  unfold parseBody at hp
  simp only [hb, hx] at hp
  obtain ⟨_, -, hp⟩ := bind_eq_ok.mp hp
  obtain ⟨_, -, hp⟩ := bind_eq_ok.mp hp
  cases hp

/-- A pass that leaves the loop has done nothing or has closed. -/
theorem parseBody_leave {close : Endpoint κ ω → Except Halt (Endpoint κ ω)} {h : Handlers}
    {data : IoBuf → ℕ} {s r : Parsing κ ω} (hp : parseBody K close h data s = .ok (.leave r)) :
    r = s ∨ ∃ conn, close s.conn = .ok conn ∧ r = { s with conn := conn } := by
  unfold parseBody at hp
  split at hp
  · cases hp
    exact Or.inl rfl
  · split at hp
    · cases hp
      exact Or.inl rfl
    · obtain ⟨conn, hc, hp⟩ := bind_eq_ok.mp hp
      cases hp
      exact Or.inr ⟨conn, hc, rfl⟩
    · cases hp
    · obtain ⟨_, -, hp⟩ := bind_eq_ok.mp hp
      obtain ⟨_, -, hp⟩ := bind_eq_ok.mp hp
      cases hp

/-- A pass that goes on pops a header's length at least. -/
theorem length_parseBody_next {close : Endpoint κ ω → Except Halt (Endpoint κ ω)} {h : Handlers}
    {data : IoBuf → ℕ} {s s' : Parsing κ ω} (hp : parseBody K close h data s = .ok (.next s')) :
    ReactorBuf.length s'.conn.ibuf + messageHeaderSize ≤ ReactorBuf.length s.conn.ibuf := by
  obtain ⟨b, len, m, hb, -, hle, hlen, hc, -⟩ := parseBody_next hp
  rw [← ReactorBuf.length_contents, hc, hb, List.length_drop, IoBuf.length_contents]
  change b.length - len + messageHeaderSize ≤ b.length
  omega

theorem parseBody_decreases (close : Endpoint κ ω → Except Halt (Endpoint κ ω)) (h : Handlers)
    (data : IoBuf → ℕ) :
    Decreases (parseBody K close h data) fun s => ReactorBuf.length s.conn.ibuf := by
  intro s s' hp
  have hle := length_parseBody_next hp
  simp only [messageHeaderSize] at hle
  dsimp only
  omega

variable (K)

/-- The code common to `tcp_conn::handle_read` and `tcp_client::handle_read`: read, parse, adjust.
`data` gets the input buffer as it is when the loop starts and as it is at the pass. -/
def handleRead (close : Endpoint κ ω → Except Halt (Endpoint κ ω)) (h : Handlers)
    (data : Option IoBuf → IoBuf → ℕ) (k : KernelRead) (e : Endpoint κ ω) :
    Except Halt (ReadOutcome × Endpoint κ ω) := do
  let (hasRead, ibuf, pool) ← ReactorBuf.readData e.ibuf k e.pool
  let e := { e with ibuf := ibuf, pool := pool }
  if hasRead < 0 then
    let e ← close e
    .ok (⟨hasRead, []⟩, e)
  else if hasRead = 0 then
    let e ← close e
    .ok (⟨hasRead, []⟩, e)
  else
    let s ← Machine.loop (parseBody K close h (data ibuf))
      (parseBody_decreases close h (data ibuf)) ⟨e, []⟩
    .ok (⟨hasRead, s.dispatched⟩, { s.conn with ibuf := ReactorBuf.adjust s.conn.ibuf })

/-- The code common to `tcp_conn::handle_write` and `tcp_client::handle_write`, with the bytes the
kernel accepted. -/
def handleWrite (close : Endpoint κ ω → Except Halt (Endpoint κ ω)) (ctl : Bool)
    (answers : List WriteAnswer) (e : Endpoint κ ω) : Except Halt (List UInt8 × Endpoint κ ω) := do
  let (failed, d) ← ReactorBuf.drain e.obuf answers
  let e := { e with obuf := d.buf }
  let e ← (if failed then close e else .ok e)
  if ReactorBuf.length e.obuf = 0 then
    .ok (d.accepted, { e with loop := e.loop.delIoEventMask ctl e.fd epollOut })
  else .ok (d.accepted, e)

end Endpoint

namespace Endpoint

variable {κ ω : Type} {K : Kind κ ω}

/-- What both classes' ways of closing do: the input buffer is left alone or given up, and the
process can only end by `exit` or in a `send`. -/
structure Closes (close : Endpoint κ ω → Except Halt (Endpoint κ ω)) : Prop where
  ibuf : ∀ e e', close e = .ok e' → e'.ibuf = none ∨ e'.ibuf = e.ibuf
  ends : ∀ e, ExitsOrOverreads (close e) ∨ ∃ e', close e = .ok e'

variable {close : Endpoint κ ω → Except Halt (Endpoint κ ω)}

theorem Closes.front (hclose : Closes close) {e e' : Endpoint κ ω} (h : close e = .ok e')
    (he : ReactorBuf.Front e.ibuf) : ReactorBuf.Front e'.ibuf := by
  rcases hclose.ibuf e e' h with h | h <;> rw [h]
  · exact ReactorBuf.front_none
  · exact he

/-- What a call of `handle_read` does: without data it closes; otherwise it runs the parse loop. -/
inductive Reads (K : Kind κ ω) (close : Endpoint κ ω → Except Halt (Endpoint κ ω)) (h : Handlers)
    (data : Option IoBuf → IoBuf → ℕ) (k : KernelRead) (e : Endpoint κ ω) :
    ReadOutcome → Endpoint κ ω → Prop
  | closed {n : ℤ} {ibuf : Option IoBuf} {pool : BufPool} {e' : Endpoint κ ω}
    (hdata : ReactorBuf.readData e.ibuf k e.pool = .ok (n, ibuf, pool)) (hn : n ≤ 0)
    (hclose : close { e with ibuf := ibuf, pool := pool } = .ok e') :
    Reads K close h data k e ⟨n, []⟩ e'
  | parsed {n : ℤ} {ibuf : Option IoBuf} {pool : BufPool} {s : Parsing κ ω}
    (hdata : ReactorBuf.readData e.ibuf k e.pool = .ok (n, ibuf, pool)) (hn : 0 < n)
    (hloop : Machine.loop (parseBody K close h (data ibuf))
      (parseBody_decreases close h (data ibuf)) ⟨{ e with ibuf := ibuf, pool := pool }, []⟩ =
        .ok s) :
    Reads K close h data k e ⟨n, s.dispatched⟩
      { s.conn with ibuf := ReactorBuf.adjust s.conn.ibuf }

theorem reads {h : Handlers} {data : Option IoBuf → IoBuf → ℕ} {k : KernelRead}
    {e e' : Endpoint κ ω} {o : ReadOutcome} (hread : handleRead K close h data k e = .ok (o, e')) :
    Reads K close h data k e o e' := by
  unfold handleRead at hread
  obtain ⟨⟨n, ibuf, pool⟩, hdata, hread⟩ := bind_eq_ok.mp hread
  dsimp only at hread
  split_ifs at hread with hneg hzero
  · obtain ⟨e₁, hclose, hread⟩ := bind_eq_ok.mp hread
    cases hread
    exact .closed hdata hneg.le hclose
  · obtain ⟨e₁, hclose, hread⟩ := bind_eq_ok.mp hread
    cases hread
    exact .closed hdata hzero.le hclose
  · obtain ⟨s, hloop, hread⟩ := bind_eq_ok.mp hread
    cases hread
    exact .parsed hdata (by omega) hloop

/-- Between two calls the bytes held are in front. -/
theorem handleRead_front (hclose : Closes close) {h : Handlers} {data : Option IoBuf → IoBuf → ℕ}
    {k : KernelRead} {e e' : Endpoint κ ω} {o : ReadOutcome} (he : ReactorBuf.Front e.ibuf)
    (hread : handleRead K close h data k e = .ok (o, e')) : ReactorBuf.Front e'.ibuf := by
  cases reads hread with
  | closed hdata _ hc => exact hclose.front hc (ReactorBuf.readData_spec he hdata).1
  | parsed hdata _ hloop =>
    obtain ⟨hf, -⟩ := ReactorBuf.readData_spec he hdata
    refine ReactorBuf.front_adjust ?_
    refine loop_invariant _ (I := fun s => ∀ b, s.conn.ibuf = some b → b.length ≤ b.capacity)
      (Q := fun s => ∀ b, s.conn.ibuf = some b → b.length ≤ b.capacity) ?_ ?_
      (fun b hb => (hf b hb).length_le) hloop
    · intro s s' hs hp b' hb'
      obtain ⟨b, len, m, hb, -, -, -, -, hr⟩ := parseBody_next hp
      obtain rfl : b' = b.pop len := by
        rcases hr with hr | hr <;> rw [hr] at hb' <;> cases hb'
        rfl
      have := hs b hb
      rw [IoBuf.length_pop, IoBuf.capacity_pop]
      omega
    · intro s r hs hp
      rcases parseBody_leave hp with rfl | ⟨conn, hc, rfl⟩
      · exact hs
      · intro b hb
        rcases hclose.ibuf _ _ hc with h | h <;> rw [h] at hb
        · cases hb
        · exact hs b hb

/-- What a call of `handle_write` does: the buffer is drained, the connection closed if a `write`
fails, and `EPOLLOUT` given up if the buffer is then empty. -/
theorem handleWrite_cases {close : Endpoint κ ω → Except Halt (Endpoint κ ω)} {ctl : Bool}
    {answers : List WriteAnswer} {e e' : Endpoint κ ω} {l : List UInt8}
    (h : handleWrite close ctl answers e = .ok (l, e')) :
    ∃ failed d e₁, ReactorBuf.drain e.obuf answers = .ok (failed, d) ∧
      (failed = true ∧ close { e with obuf := d.buf } = .ok e₁ ∨
        failed = false ∧ e₁ = { e with obuf := d.buf }) ∧
      (e' = { e₁ with loop := e₁.loop.delIoEventMask ctl e₁.fd epollOut } ∨ e' = e₁) := by
  obtain ⟨⟨failed, d⟩, hdrain, h⟩ := bind_eq_ok.mp h
  obtain ⟨e₁, hclose, h⟩ := bind_eq_ok.mp h
  refine ⟨failed, d, e₁, hdrain, ?_, ?_⟩
  · cases failed with
    | false => exact Or.inr ⟨rfl, (Except.ok.inj hclose).symm⟩
    | true => exact Or.inl ⟨rfl, hclose⟩
  · split_ifs at h <;> cases h
    · exact Or.inl rfl
    · exact Or.inr rfl

theorem handleWrite_front (hclose : Closes close) {ctl : Bool} {answers : List WriteAnswer}
    {e e' : Endpoint κ ω} {l : List UInt8} (he : ReactorBuf.Front e.ibuf)
    (hwrite : handleWrite close ctl answers e = .ok (l, e')) : ReactorBuf.Front e'.ibuf := by
  obtain ⟨failed, d, e₁, -, hc, hlast⟩ := handleWrite_cases hwrite
  have hf : ReactorBuf.Front e₁.ibuf := by
    rcases hc with ⟨-, hc⟩ | ⟨-, rfl⟩
    · exact hclose.front hc he
    · exact he
  rcases hlast with rfl | rfl <;> exact hf

end Endpoint

/-! ## Properties that all calls keep -/

namespace Endpoint

variable {κ ω : Type} {K : Kind κ ω}

/-- The answers of `epoll_ctl` to the sends of a run of user code are all in `C`. -/
def CtlIn (C : Bool → Prop) (acts : List UserAct) : Prop :=
  ∀ id body ctl, UserAct.send id body ctl ∈ acts → C ctl

theorem ctlIn_nil (C : Bool → Prop) : CtlIn C [] := fun _ _ _ h => absurd h List.not_mem_nil

/-- A property of endpoints that has nothing to do with the input buffer and the pool, and is kept
by `send`, when `epoll_ctl` answers as in `C`, and by the class's way of closing. -/
structure Keeps (K : Kind κ ω) (close : Endpoint κ ω → Except Halt (Endpoint κ ω))
    (C : Bool → Prop) (P : Endpoint κ ω → Prop) : Prop where
  input : ∀ e ibuf pool, P e → P { e with ibuf := ibuf, pool := pool }
  send : ∀ e id body ctl ret e', C ctl → P e → send K id body ctl e = .ok (ret, e') → P e'
  close : ∀ e e', P e → close e = .ok e' → P e'

variable {close : Endpoint κ ω → Except Halt (Endpoint κ ω)} {C : Bool → Prop}
  {P : Endpoint κ ω → Prop}

/-- User code keeps what `send` keeps. -/
theorem runScript_keeps (hinput : ∀ e ibuf pool, P e → P { e with ibuf := ibuf, pool := pool })
    (hsend : ∀ e id body ctl ret e', C ctl → P e → send K id body ctl e = .ok (ret, e') → P e')
    {acts : List UserAct} (hacts : CtlIn C acts) {e e' : Endpoint κ ω} (he : P e)
    (h : runScript K acts e = .ok e') : P e' := by
  induction acts generalizing e with
  | nil =>
    cases h
    exact he
  | cons act acts ih =>
    have hacts' : CtlIn C acts := fun id body ctl hm =>
      hacts id body ctl (List.mem_cons_of_mem _ hm)
    cases act with
    | send id body ctl =>
      obtain ⟨⟨ret, e₁⟩, hs, h⟩ := bind_eq_ok.mp h
      exact ih hacts' (hsend e id body ctl ret e₁ (hacts id body ctl List.mem_cons_self) he hs) h
    | other pool => exact ih hacts' (hinput e e.ibuf pool he) h

/-- So does a handler. -/
theorem callHandler_keeps (hinput : ∀ e ibuf pool, P e → P { e with ibuf := ibuf, pool := pool })
    (hsend : ∀ e id body ctl ret e', C ctl → P e → send K id body ctl e = .ok (ret, e') → P e')
    {h : Handlers} (hh : ∀ ds, CtlIn C (h.script ds)) {m : Dispatch} {s s' : Parsing κ ω}
    (hs : P s.conn) (hc : callHandler K h m s = .ok s') : P s'.conn := by
  rcases callHandler_cases hc with ⟨-, conn, hrun, rfl⟩ | ⟨-, rfl⟩
  · exact runScript_keeps hinput hsend (hh _) hs hrun
  · exact hs

/-- The parse loop keeps what its parts keep. -/
theorem Keeps.loop (hk : Keeps K close C P) {h : Handlers} (hh : ∀ ds, CtlIn C (h.script ds))
    {data : IoBuf → ℕ} {s r : Parsing κ ω} (hs : P s.conn)
    (hloop : Machine.loop (parseBody K close h data) (parseBody_decreases close h data) s = .ok r) :
    P r.conn := by
  refine loop_invariant _ (I := fun s => P s.conn) (Q := fun s => P s.conn) ?_ ?_ hs hloop
  · intro s s' hs hp
    obtain ⟨m, s₁, ibuf, pool, -, hcall, rfl⟩ := parseBody_next_conn hp
    exact hk.input _ _ _ (callHandler_keeps hk.input hk.send hh hs hcall)
  · intro s r hs hp
    rcases parseBody_leave hp with rfl | ⟨conn, hc, rfl⟩
    · exact hs
    · exact hk.close _ _ hs hc

/-- `handle_read` keeps what its parts keep. -/
theorem Keeps.handleRead (hk : Keeps K close C P) {h : Handlers} (hh : ∀ ds, CtlIn C (h.script ds))
    {data : Option IoBuf → IoBuf → ℕ} {k : KernelRead} {e e' : Endpoint κ ω} {o : ReadOutcome}
    (he : P e) (hread : Endpoint.handleRead K close h data k e = .ok (o, e')) : P e' := by
  cases reads hread with
  | closed _ _ hclose => exact hk.close _ _ (hk.input e _ _ he) hclose
  | @parsed _ _ _ s _ _ hloop =>
    have hs := hk.loop hh (hk.input e _ _ he) hloop
    exact hk.input s.conn (ReactorBuf.adjust s.conn.ibuf) s.conn.pool hs

/-- Closing leads from a property, which user code keeps, to another. Neither has to do with the
input buffer. -/
structure Leads (K : Kind κ ω) (close : Endpoint κ ω → Except Halt (Endpoint κ ω))
    (P Q : Endpoint κ ω → Prop) : Prop where
  input : ∀ e ibuf pool, P e → P { e with ibuf := ibuf, pool := pool }
  send : ∀ e id body ctl ret e', P e → send K id body ctl e = .ok (ret, e') → P e'
  close : ∀ e e', P e → close e = .ok e' → Q e'
  closed : ∀ e ibuf, Q e → Q { e with ibuf := ibuf }

/-- `handle_read` closes last, if at all. -/
theorem Leads.handleRead {Q : Endpoint κ ω → Prop} (hl : Leads K close P Q) {h : Handlers}
    {data : Option IoBuf → IoBuf → ℕ} {k : KernelRead} {e e' : Endpoint κ ω} {o : ReadOutcome}
    (he : P e) (hread : Endpoint.handleRead K close h data k e = .ok (o, e')) : P e' ∨ Q e' := by
  cases reads hread with
  | closed _ _ hclose => exact Or.inr (hl.close _ _ (hl.input e _ _ he) hclose)
  | @parsed _ _ _ s _ _ hloop =>
    have hs : P s.conn ∨ Q s.conn := by
      refine loop_invariant _ (I := fun s => P s.conn) (Q := fun s => P s.conn ∨ Q s.conn) ?_ ?_
        (hl.input e _ _ he) hloop
      · intro s s' hs hp
        obtain ⟨m, s₁, ibuf, pool, -, hcall, rfl⟩ := parseBody_next_conn hp
        refine hl.input _ _ _ ?_
        exact callHandler_keeps (C := fun _ => True) hl.input
          (fun e id body ctl ret e' _ => hl.send e id body ctl ret e')
          (fun _ _ _ _ _ => trivial) hs hcall
      · intro s r hs hp
        rcases parseBody_leave hp with rfl | ⟨conn, hc, rfl⟩
        · exact Or.inl hs
        · exact Or.inr (hl.close _ _ hs hc)
    exact hs.imp (hl.input s.conn (ReactorBuf.adjust s.conn.ibuf) s.conn.pool) (hl.closed s.conn _)

end Endpoint

/-! ## Feeding a stream to an endpoint -/

/-- A chunk of the stream that `handle_read` is called for: how often `read` is interrupted before
it delivers the chunk, the handlers, and the buffer pool as the call finds it. -/
structure ReadEvent where
  chunk : List UInt8
  chunk_ne : chunk ≠ []
  interruptions : ℕ
  handlers : Handlers
  pool : BufPool

namespace ReadEvent

/-- What the kernel answers when the chunk is read. -/
def kernelRead (ev : ReadEvent) : KernelRead := .chunk ev.interruptions ev.chunk

/-- A chunk read at once, with two free buffers of each size and handlers for all ids that do
nothing. -/
def plain (chunk : List UInt8) (h : chunk ≠ []) : ReadEvent :=
  ⟨chunk, h, 0, ⟨fun _ => true, fun _ => []⟩, .ofCounts fun _ => 2⟩

end ReadEvent

namespace Endpoint

variable {κ ω : Type}

/-- The call of `handle_read` for a chunk, with the handlers it calls. -/
def onChunk
    (handleRead : KernelRead → Handlers → Endpoint κ ω → Except Halt (ReadOutcome × Endpoint κ ω))
    (e : Endpoint κ ω) (ev : ReadEvent) : Except Halt (List Dispatch × Endpoint κ ω) := do
  let (o, e) ← handleRead ev.kernelRead ev.handlers { e with pool := ev.pool }
  .ok (o.dispatched, e)

/-- What is assumed of the call for a chunk of the stream of `ms`: the ids have handlers, and buffer
allocation succeeds, so that `read_data` gets a buffer. No `send` of a handler ends the process or,
after an earlier one that has failed, copies past its block. -/
structure Served
    (handleRead : KernelRead → Handlers → Endpoint κ ω → Except Halt (ReadOutcome × Endpoint κ ω))
    (ms : List Dispatch) (e : Endpoint κ ω) (ev : ReadEvent) : Prop where
  registered : ∀ m ∈ ms, ev.handlers.registered m.id = true
  buffer : ∀ r p, ReactorBuf.readData e.ibuf ev.kernelRead ev.pool ≠ .ok (-1, r, p)
  alive : ¬ ExitsOrOverreads (onChunk handleRead e ev)

/-- The assumptions on a call that can be evaluated. -/
theorem Served.of_eval
    {handleRead : KernelRead → Handlers → Endpoint κ ω → Except Halt (ReadOutcome × Endpoint κ ω)}
    {ms : List Dispatch} {e : Endpoint κ ω} {ev : ReadEvent}
    (hreg : ∀ m ∈ ms, ev.handlers.registered m.id = true)
    (hbuf : output (ReactorBuf.readData e.ibuf ev.kernelRead ev.pool) ≠ some (-1))
    (halive : (onChunk handleRead e ev).isOk = true) : Served handleRead ms e ev where
  registered := hreg
  buffer _ _ h := hbuf (output_of_eq_ok h)
  alive h := by rcases h with h | h <;> rw [h] at halive <;> cases halive

/-- The endpoint is between two calls of `handle_read`, with `p` in its input buffer. -/
structure Holds (e : Endpoint κ ω) (p : List UInt8) : Prop where
  front : ReactorBuf.Front e.ibuf
  contents_eq : ReactorBuf.contents e.ibuf = p

/-- A call of `handle_read` for a chunk with allocation succeeding comes down to the parse loop over
the bytes held and the chunk. -/
theorem onChunk_eq {K : Kind κ ω} (close : Endpoint κ ω → Except Halt (Endpoint κ ω))
    (data : Option IoBuf → IoBuf → ℕ)
    {read : KernelRead → Handlers → Endpoint κ ω → Except Halt (ReadOutcome × Endpoint κ ω)}
    {ms : List Dispatch} {e : Endpoint κ ω} {p : List UInt8} {ev : ReadEvent} (he : Holds e p)
    (hev : Served read ms e ev)
    (hread : read ev.kernelRead ev.handlers { e with pool := ev.pool } =
      handleRead K close ev.handlers data ev.kernelRead { e with pool := ev.pool }) :
    ∃ b q, b.Front ∧ b.contents = p ++ ev.chunk ∧
      onChunk read e ev =
        (Machine.loop (parseBody K close ev.handlers (data (some b)))
          (parseBody_decreases close ev.handlers (data (some b)))
          ⟨{ e with ibuf := some b, pool := q }, []⟩ >>= fun s =>
            .ok (s.dispatched, { s.conn with ibuf := ReactorBuf.adjust s.conn.ibuf })) := by
  have hpos : 0 < ev.chunk.length := List.length_pos_iff.mpr ev.chunk_ne
  have halive := hev.alive
  unfold onChunk at halive ⊢
  rw [hread] at halive ⊢
  unfold handleRead ReadEvent.kernelRead at halive ⊢
  rcases ReactorBuf.readData_chunk_cases he.front ev.chunk_ne ev.interruptions ev.pool with
    h | ⟨r, q, h⟩ | ⟨b, q, h, hb, hc⟩
  · exact absurd (Or.inl (by simp only [h]; rfl)) halive
  · exact absurd h (hev.buffer r q)
  · refine ⟨b, q, hb, hc.trans (by rw [he.contents_eq]), ?_⟩
    have hneg : ¬ (ev.chunk.length : ℤ) < 0 := by omega
    have hzero : ¬ (ev.chunk.length : ℤ) = 0 := by omega
    simp only [h, ok_bind, hneg, hzero, if_false]
    cases Machine.loop (parseBody K close ev.handlers (data (some b)))
      (parseBody_decreases close ev.handlers (data (some b)))
      ⟨{ e with ibuf := some b, pool := q }, []⟩ <;> rfl

end Endpoint

end Lars.Reactor
