import Lars.Reactor.TcpConn

/-!
# The connections of a server

`tcp_server` (`lars_reactor/src/tcp_server.cc`) accepts connections in its main loop and gives each
to one of its loops, in whose thread it is served. `m_conns` has the connections by their
descriptors. A connection that closes in its thread has the main loop delete it: the task,
`delete_conn_inloop`, is given the descriptor.

A `tcp_conn` is held by shared pointers: in `m_conns`, in the task that runs `listen_read`, in the
callbacks registered with its loop and in the loop's table `t_event_loop_conns`, in
`accept_callback` while it runs, and wherever else a copy is kept (`held`). Its descriptor is closed
when the last pointer is gone, and only then can the kernel give it to a new connection.

The steps are those of the main loop and of the loops' threads, in any order. `deleteTasks` and
`ran` record which object has queued a task; no step looks at it.
-/

namespace Lars.Reactor

open Machine

/-- What the server sees of a `tcp_conn`. -/
structure ConnObject (ℓ : Type) where
  fd : ℤ
  loop : ℓ
  state : ConnState := .connected

/-- A queued `delete_conn_inloop(fd)`, with the object whose `close` has queued it. -/
structure DeleteTask where
  fd : ℤ
  closer : ℕ
  deriving DecidableEq

/-- A `delete_conn_inloop` that has run, with the connection it has found, passed to the callback
and taken out of `m_conns`. -/
structure Deletion where
  task : DeleteTask
  found : Option ℕ
  deriving DecidableEq

/-- Where the main loop is. -/
inductive MainAt
  | idle
  /-- In `accept_callback`, between `add_task` and the assignment to `m_conns`. -/
  | accepting (conn : ℕ)
  deriving DecidableEq

/-- `tcp_server`, with the objects it has made that are not destroyed, the descriptors of
connections that are open, and the loops with their tables and queues. -/
structure TcpServer (ℓ : Type) where
  objects : ℕ → Option (ConnObject ℓ)
  next : ℕ
  openFds : Finset ℤ
  connNums : ℕ
  maxConnNums : ℕ
  mConns : ℤ → Option ℕ
  main : MainAt
  loops : ℓ → EventLoop ConnCallback
  tables : ℓ → ℤ → Option ℕ
  listenTasks : ℓ → List ℕ
  deleteTasks : List DeleteTask
  held : Finset ℕ
  ran : List Deletion

/-- The steps of the threads; `ctl` is the answer of `epoll_ctl`. -/
inductive ServerEvent (ℓ : Type)
  /-- `accept` has answered `fd`; `get_next_loop` answers `loop`. -/
  | accept (fd : ℤ) (loop : ℓ)
  /-- `m_conns[connfd] = conn`. -/
  | store
  /-- The next `listen_read` of a loop's queue. -/
  | listenRead (loop : ℓ) (ctl : Bool)
  /-- A `send` on an empty output buffer. -/
  | send (conn : ℕ) (ctl : Bool)
  /-- The end of a `handle_write` that leaves the output buffer empty. -/
  | drained (conn : ℕ) (ctl : Bool)
  | close (conn : ℕ) (ctl : Bool)
  /-- The next task of the main loop's queue, a `delete_conn_inloop`. -/
  | deleteConnInloop
  /-- A copy of a pointer is made: of the callback that runs, or by the program. -/
  | hold (conn : ℕ)
  /-- The last of these copies is gone. -/
  | release (conn : ℕ)
  /-- The last pointer is gone. -/
  | destroy (conn : ℕ) (ctl : Bool)

/-- The object a callback is bound to. -/
def ConnCallback.self : ConnCallback → ℕ
  | .handleRead self => self
  | .handleWrite self => self

/-- The callbacks registered hold a pointer to the object. -/
def IoEvent.calls (ev : IoEvent ConnCallback) (conn : ℕ) : Bool :=
  ev.readCallback.any (·.self = conn) || ev.writeCallback.any (·.self = conn)

namespace TcpServer

variable {ℓ : Type} [DecidableEq ℓ]

/-- The server after `start`, its loops having registrations of their own. -/
def start (maxConnNums : ℕ) (loops : ℓ → EventLoop ConnCallback) : TcpServer ℓ where
  objects _ := none
  next := 0
  openFds := ∅
  connNums := 0
  maxConnNums := maxConnNums
  mConns _ := none
  main := .idle
  loops := loops
  tables _ _ := none
  listenTasks _ := []
  deleteTasks := []
  held := ∅
  ran := []

/-- There is a pointer to the object. All that are stored under a descriptor are stored under the
object's own, and all that belong to a loop belong to its loop. -/
def Referenced (s : TcpServer ℓ) (conn : ℕ) (o : ConnObject ℓ) : Prop :=
  s.mConns o.fd = some conn ∨ s.main = .accepting conn ∨ conn ∈ s.listenTasks o.loop ∨
    ((s.loops o.loop).ioEvsMap o.fd).any (·.calls conn) = true ∨
    s.tables o.loop o.fd = some conn ∨ conn ∈ s.held

instance (s : TcpServer ℓ) (conn : ℕ) (o : ConnObject ℓ) : Decidable (s.Referenced conn o) :=
  inferInstanceAs (Decidable (_ ∨ _))

/-- `tcp_conn::tcp_conn`, and the task with its `listen_read`. -/
def newConn (fd : ℤ) (loop : ℓ) (s : TcpServer ℓ) : TcpServer ℓ :=
  { s with
    objects := Function.update s.objects s.next (some { fd, loop })
    next := s.next + 1
    openFds := insert fd s.openFds
    connNums := s.connNums + 1
    listenTasks := Function.update s.listenTasks loop (s.listenTasks loop ++ [s.next])
    main := .accepting s.next }

/-- `tcp_conn::listen_read`. -/
def listenRead (conn : ℕ) (o : ConnObject ℓ) (ctl : Bool) (s : TcpServer ℓ) : TcpServer ℓ :=
  { s with
    loops := Function.update s.loops o.loop
      ((s.loops o.loop).addIoEvent ctl o.fd epollIn (.handleRead conn))
    tables := Function.update s.tables o.loop
      (Function.update (s.tables o.loop) o.fd (some conn)) }

/-- `tcp_conn::close`, with the close callback `tcp_server::delete_conn`. -/
def close (conn : ℕ) (o : ConnObject ℓ) (ctl : Bool) (s : TcpServer ℓ) : TcpServer ℓ :=
  if o.state ≠ .connected then s
  else
    { s with
      objects := Function.update s.objects conn (some { o with state := .disconnected })
      loops := Function.update s.loops o.loop ((s.loops o.loop).delIoEvent ctl o.fd)
      tables := Function.update s.tables o.loop (Function.update (s.tables o.loop) o.fd none)
      deleteTasks := s.deleteTasks ++ [⟨o.fd, conn⟩] }

/-- `tcp_server::delete_conn_inloop`; the pointer `conn` is kept until it is released. -/
def deleteConnInloop (task : DeleteTask) (s : TcpServer ℓ) : TcpServer ℓ :=
  let conn := s.mConns task.fd
  { s with
    held := conn.elim s.held (insert · s.held)
    ran := s.ran ++ [⟨task, conn⟩]
    mConns := Function.update s.mConns task.fd none }

/-- `tcp_conn::~tcp_conn`, and `csocket::~csocket`, which takes descriptor 0 for none. -/
def destroy (conn : ℕ) (o : ConnObject ℓ) (ctl : Bool) (s : TcpServer ℓ) : TcpServer ℓ :=
  let s := s.close conn o ctl
  { s with
    objects := Function.update s.objects conn none
    connNums := s.connNums - 1
    openFds := if o.fd > 0 then s.openFds.erase o.fd else s.openFds }

/-- A step, in which the object it is about is there. -/
def onObject (s : TcpServer ℓ) (conn : ℕ) (f : ConnObject ℓ → TcpServer ℓ) :
    Except Disabled (Unit × TcpServer ℓ) :=
  match s.objects conn with
  | some o => .ok ((), f o)
  | none => .error .disabled

/-- A step. -/
def step (s : TcpServer ℓ) : ServerEvent ℓ → Except Disabled (Unit × TcpServer ℓ)
  | .accept fd loop =>
    if s.main ≠ .idle ∨ fd < 0 ∨ fd ∈ s.openFds then .error .disabled
    else if s.connNums > s.maxConnNums then .ok ((), s)
    else .ok ((), s.newConn fd loop)
  | .store =>
    match s.main with
    | .idle => .error .disabled
    | .accepting conn => s.onObject conn fun o =>
      { s with mConns := Function.update s.mConns o.fd (some conn), main := .idle }
  | .listenRead loop ctl =>
    match s.listenTasks loop with
    | [] => .error .disabled
    | conn :: conns => s.onObject conn fun o =>
      { s.listenRead conn o ctl with
        listenTasks := Function.update s.listenTasks loop conns
        held := insert conn s.held }
  | .send conn ctl => s.onObject conn fun o =>
    { s with
      loops := Function.update s.loops o.loop
        ((s.loops o.loop).addIoEvent ctl o.fd epollOut (.handleWrite conn)) }
  | .drained conn ctl => s.onObject conn fun o =>
    { s with
      loops := Function.update s.loops o.loop
        ((s.loops o.loop).delIoEventMask ctl o.fd epollOut) }
  | .close conn ctl => s.onObject conn fun o => s.close conn o ctl
  | .deleteConnInloop =>
    match s.main, s.deleteTasks with
    | .idle, task :: tasks => .ok ((), { s.deleteConnInloop task with deleteTasks := tasks })
    | _, _ => .error .disabled
  | .hold conn => s.onObject conn fun _ => { s with held := insert conn s.held }
  | .release conn => .ok ((), { s with held := s.held.erase conn })
  | .destroy conn ctl =>
    match s.objects conn with
    | none => .error .disabled
    | some o =>
      if s.Referenced conn o then .error .disabled else .ok ((), s.destroy conn o ctl)

/-! ## The calls of `tcp_conn` -/

/-- An object of the server, as the model of a single connection has it. -/
structure Mirrors (s : TcpServer ℓ) (o : ConnObject ℓ) (c : TcpConn) : Prop where
  fd_eq : c.fd = o.fd
  state_eq : c.own.state = o.state
  loop_eq : c.loop = s.loops o.loop
  conns_eq : c.own.conns = s.tables o.loop

/-- `listenRead` is the call, with a callback that does nothing. -/
theorem Mirrors.listenRead {s : TcpServer ℓ} {o : ConnObject ℓ} {c c' : TcpConn}
    (h : Mirrors s o c) {ctl : Bool} (hc : TcpConn.listenRead ctl [] c = .ok c') :
    Mirrors (s.listenRead c.own.self o ctl) o c' := by
  obtain ⟨hfd, hstate, hloop, hconns⟩ := h
  cases hc
  refine ⟨hfd, hstate, ?_, ?_⟩
  · show c.loop.addIoEvent ctl c.fd epollIn _ = Function.update s.loops o.loop _ o.loop
    rw [Function.update_self, hloop, hfd]
  · show Function.update c.own.conns c.fd _ = Function.update s.tables o.loop _ o.loop
    rw [Function.update_self, hconns, hfd]

/-- `close` is the call, and queues a task for every descriptor the close callback is called for. -/
theorem Mirrors.close {s : TcpServer ℓ} {o : ConnObject ℓ} {c : TcpConn} (h : Mirrors s o c)
    (ho : s.objects c.own.self = some o) (ctl : Bool) :
    ∃ o' fds, (s.close c.own.self o ctl).objects c.own.self = some o' ∧
      Mirrors (s.close c.own.self o ctl) o' (c.close ctl) ∧
      (c.close ctl).own.closed = c.own.closed ++ fds ∧
      (s.close c.own.self o ctl).deleteTasks.map DeleteTask.fd =
        s.deleteTasks.map DeleteTask.fd ++ fds := by
  obtain ⟨hfd, hstate, hloop, hconns⟩ := h
  unfold TcpServer.close TcpConn.close
  rw [hstate]
  split_ifs with hclosed
  · exact ⟨o, [], ho, ⟨hfd, hstate, hloop, hconns⟩, (List.append_nil _).symm,
      (List.append_nil _).symm⟩
  · refine ⟨{ o with state := .disconnected }, [o.fd], Function.update_self _ _ _,
      ⟨hfd, rfl, ?_, ?_⟩, by rw [hfd], by rw [List.map_append]; rfl⟩
    · show c.loop.delIoEvent ctl c.fd = Function.update s.loops o.loop _ o.loop
      rw [Function.update_self, hloop, hfd]
    · show Function.update c.own.conns c.fd none = Function.update s.tables o.loop _ o.loop
      rw [Function.update_self, hconns, hfd]

/-- What `close` leaves alone. -/
structure CloseFrame (s s' : TcpServer ℓ) : Prop where
  next : s'.next = s.next
  openFds : s'.openFds = s.openFds
  connNums : s'.connNums = s.connNums
  maxConnNums : s'.maxConnNums = s.maxConnNums
  mConns : s'.mConns = s.mConns
  main : s'.main = s.main
  listenTasks : s'.listenTasks = s.listenTasks
  held : s'.held = s.held
  ran : s'.ran = s.ran

theorem close_frame (s : TcpServer ℓ) (conn : ℕ) (o : ConnObject ℓ) (ctl : Bool) :
    CloseFrame s (s.close conn o ctl) := by
  unfold close
  split_ifs <;> exact ⟨rfl, rfl, rfl, rfl, rfl, rfl, rfl, rfl, rfl⟩

/-! ## The steps, one by one -/

/-- What a step does. -/
inductive Made (s : TcpServer ℓ) : ServerEvent ℓ → TcpServer ℓ → Prop
  | refuse {fd : ℤ} {loop : ℓ} : Made s (.accept fd loop) s
  | accept {fd : ℤ} {loop : ℓ} (hmain : s.main = .idle) (hfd : fd ∉ s.openFds) :
    Made s (.accept fd loop) (s.newConn fd loop)
  | store {conn : ℕ} {o : ConnObject ℓ} (hmain : s.main = .accepting conn)
      (ho : s.objects conn = some o) :
    Made s .store { s with mConns := Function.update s.mConns o.fd (some conn), main := .idle }
  | listenRead {loop : ℓ} {ctl : Bool} {conn : ℕ} {conns : List ℕ} {o : ConnObject ℓ}
      (htasks : s.listenTasks loop = conn :: conns) (ho : s.objects conn = some o) :
    Made s (.listenRead loop ctl) { s.listenRead conn o ctl with
      listenTasks := Function.update s.listenTasks loop conns
      held := insert conn s.held }
  | send {conn : ℕ} {ctl : Bool} {o : ConnObject ℓ} (ho : s.objects conn = some o) :
    Made s (.send conn ctl) { s with
      loops := Function.update s.loops o.loop
        ((s.loops o.loop).addIoEvent ctl o.fd epollOut (.handleWrite conn)) }
  | drained {conn : ℕ} {ctl : Bool} {o : ConnObject ℓ} (ho : s.objects conn = some o) :
    Made s (.drained conn ctl) { s with
      loops := Function.update s.loops o.loop
        ((s.loops o.loop).delIoEventMask ctl o.fd epollOut) }
  | close {conn : ℕ} {ctl : Bool} {o : ConnObject ℓ} (ho : s.objects conn = some o) :
    Made s (.close conn ctl) (s.close conn o ctl)
  | deleteConnInloop {task : DeleteTask} {tasks : List DeleteTask} (hmain : s.main = .idle)
      (htasks : s.deleteTasks = task :: tasks) :
    Made s .deleteConnInloop { s.deleteConnInloop task with deleteTasks := tasks }
  | hold {conn : ℕ} {o : ConnObject ℓ} (ho : s.objects conn = some o) :
    Made s (.hold conn) { s with held := insert conn s.held }
  | release {conn : ℕ} : Made s (.release conn) { s with held := s.held.erase conn }
  | destroy {conn : ℕ} {ctl : Bool} {o : ConnObject ℓ} (ho : s.objects conn = some o)
      (href : ¬ s.Referenced conn o) : Made s (.destroy conn ctl) (s.destroy conn o ctl)

omit [DecidableEq ℓ] in
theorem onObject_eq_ok {s s' : TcpServer ℓ} {conn : ℕ} {f : ConnObject ℓ → TcpServer ℓ} {u : Unit}
    (h : s.onObject conn f = .ok (u, s')) : ∃ o, s.objects conn = some o ∧ s' = f o := by
  unfold onObject at h
  split at h <;> cases h
  exact ⟨_, ‹_›, rfl⟩

theorem made_of_step {s s' : TcpServer ℓ} {e : ServerEvent ℓ} {u : Unit}
    (h : step s e = .ok (u, s')) : Made s e s' := by
  cases e with
  | accept fd loop =>
    simp only [step] at h
    split_ifs at h with hdisabled hmany <;> cases h
    · exact .refuse
    · simp only [not_or, not_not] at hdisabled
      exact .accept hdisabled.1 hdisabled.2.2
  | store =>
    simp only [step] at h
    split at h
    · cases h
    · obtain ⟨o, ho, rfl⟩ := onObject_eq_ok h
      exact .store ‹_› ho
  | listenRead loop ctl =>
    simp only [step] at h
    split at h
    · cases h
    · obtain ⟨o, ho, rfl⟩ := onObject_eq_ok h
      exact .listenRead ‹_› ho
  | send conn ctl =>
    obtain ⟨o, ho, rfl⟩ := onObject_eq_ok h
    exact .send ho
  | drained conn ctl =>
    obtain ⟨o, ho, rfl⟩ := onObject_eq_ok h
    exact .drained ho
  | close conn ctl =>
    obtain ⟨o, ho, rfl⟩ := onObject_eq_ok h
    exact .close ho
  | deleteConnInloop =>
    simp only [step] at h
    split at h <;> cases h
    exact .deleteConnInloop ‹_› ‹_›
  | hold conn =>
    obtain ⟨o, ho, rfl⟩ := onObject_eq_ok h
    exact .hold ho
  | release conn =>
    cases h
    exact .release
  | destroy conn ctl =>
    simp only [step] at h
    split at h
    · cases h
    · split_ifs at h with href
      cases h
      exact .destroy ‹_› href

end TcpServer

end Lars.Reactor
