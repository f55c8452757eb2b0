import Lars.Dns.Subscribe
import Lars.Foundations.LastWrite
import Lars.Proto
import Lars.Reactor.TcpConn

/-!
# Whom a push is sent to

`push_change_task` sends to the descriptors of `m_listen_fds` that have keys waiting. It looks the
connection up in `t_event_loop_conns` and calls `send` on what it finds, without asking whether it
has found anything; the subscriptions, which are never taken back, are of no help.

`m_listen_fds` is kept by `add_io_event` and `del_io_event`, the table by `listen_read` and `close`.
Between two tasks or events, a descriptor that is listened on is one of the loop's own, which nobody
subscribes, or that of an open connection, and the connection is in the table
(`push_targets_of_run`).
-/

namespace Lars.Reactor.TcpConn

open Machine EventLoop

/-! ## Calls on an open connection -/

/-- The connection `c` is `c₀`, as open as that. -/
structure Stays (c₀ c : TcpConn) : Prop where
  fd : c.fd = c₀.fd
  own : c.own = c₀.own
  off : SameOff c₀.fd c₀.loop c.loop
  listed : c.loop.Listed c₀.fd

/-- The connection `c` is `c₀`, closed: nothing of it is left in the tables of its loop. -/
structure Leaves (c₀ c : TcpConn) : Prop where
  fd : c.fd = c₀.fd
  self : c.own.self = c₀.own.self
  state : c.own.state ≠ .connected
  conns : c.own.conns = Function.update c₀.own.conns c₀.fd none
  off : SameOff c₀.fd c₀.loop c.loop
  notMem : c₀.fd ∉ c.loop.listenFds

theorem Stays.refl {c : TcpConn} (h : c.loop.Listed c.fd) : Stays c c := ⟨rfl, rfl, .refl _ _, h⟩

variable {c₀ c c' : TcpConn}

theorem Stays.send (hc : Stays c₀ c) {id : Int32} {body : List UInt8} {ctl : Bool} {ret : ℤ}
    (h : Endpoint.send kind id body ctl c = .ok (ret, c')) : Stays c₀ c' := by
  cases Endpoint.sends h with
  | barred => exact hc
  | refused => exact ⟨hc.fd, hc.own, hc.off, hc.listed⟩
  | first =>
    have hsame := addIoEvent_sameOff c.loop ctl c.fd epollOut (kind.onWrite c.own)
    have hlisted := addIoEvent_listed c.loop ctl c.fd epollOut (kind.onWrite c.own)
    exact ⟨hc.fd, hc.own, hc.off.trans (hc.fd ▸ hsame), hc.fd ▸ hlisted⟩
  | behind => exact ⟨hc.fd, hc.own, hc.off, hc.listed⟩

theorem Stays.close (hc : Stays c₀ c) (h : c₀.own.state = .connected) (ctl : Bool) :
    Leaves c₀ (c.close ctl) := by
  have hstate : c.own.state = .connected := (congrArg ConnOwn.state hc.own).trans h
  unfold TcpConn.close
  rw [if_neg (not_not.mpr hstate)]
  refine ⟨hc.fd, ?_, nofun, ?_, ?_, ?_⟩
  · show c.own.self = c₀.own.self
    rw [hc.own]
  · show Function.update c.own.conns c.fd none = Function.update c₀.own.conns c₀.fd none
    rw [hc.own, hc.fd]
  · show SameOff c₀.fd c₀.loop (c.loop.delIoEvent ctl c.fd)
    rw [hc.fd]
    exact hc.off.trans (delIoEvent_sameOff _ ctl _)
  · show c₀.fd ∉ (c.loop.delIoEvent ctl c.fd).listenFds
    rw [hc.fd]
    exact notMem_listenFds_delIoEvent hc.listed ctl

theorem leads_leaves (h : c₀.own.state = .connected) (ctl : Bool) :
    Endpoint.Leads kind (handleClose ctl) (Stays c₀) (Leaves c₀) where
  input _ _ _ hc := ⟨hc.fd, hc.own, hc.off, hc.listed⟩
  send _ _ _ _ _ _ hc hsend := hc.send hsend
  close c c' hc hclose := by
    obtain rfl : close ctl c = c' := Except.ok.inj hclose
    exact hc.close h ctl
  closed _ _ hc := ⟨hc.fd, hc.self, hc.state, hc.conns, hc.off, hc.notMem⟩

/-- A call on an open connection leaves it open, or closes it. -/
theorem stays_or_leaves_of_step (h : c₀.own.state = .connected) (hc : c₀.loop.Listed c₀.fd)
    {ev : Event} {o : Shown} (hstep : step c₀ ev = .ok (o, c)) : Stays c₀ c ∨ Leaves c₀ c := by
  have hpool : Stays c₀ { c₀ with pool := ev.pool } := ⟨rfl, rfl, .refl _ _, hc⟩
  rcases step_cases hstep with ⟨k, hs, r, -, hread⟩ | ⟨answers, l, -, hwrite⟩ |
    ⟨id, body, ret, -, hsend⟩
  · exact (leads_leaves h ev.ctl).handleRead hpool hread
  · obtain ⟨failed, d, c₁, -, hfailed, hlast⟩ := Endpoint.handleWrite_cases hwrite
    have hdrained : Stays c₀ { c₀ with pool := ev.pool, obuf := d.buf } :=
      ⟨hpool.fd, hpool.own, hpool.off, hpool.listed⟩
    have hc₁ : Stays c₀ c₁ ∨ Leaves c₀ c₁ := by
      rcases hfailed with ⟨-, hclose⟩ | ⟨-, rfl⟩
      · exact Or.inr ((leads_leaves h ev.ctl).close _ _ hdrained hclose)
      · exact Or.inl hdrained
    rcases hlast with rfl | rfl
    · -- `EPOLLOUT` given up takes a descriptor off what is listened on, but puts none there.
      have hfd : c₁.fd = c₀.fd := hc₁.elim Stays.fd Leaves.fd
      have hsame := delIoEventMask_sameOff c₁.loop ev.ctl c₀.fd epollOut
      rcases hc₁ with hstays | hleaves
      · refine Or.inl ⟨hfd, hstays.own, ?_, ?_⟩
        · rw [hfd]
          exact hstays.off.trans hsame
        · rw [hfd]
          exact delIoEventMask_listed hstays.listed ev.ctl epollOut
      · refine Or.inr ⟨hfd, hleaves.self, hleaves.state, hleaves.conns, ?_, ?_⟩
        · rw [hfd]
          exact hleaves.off.trans hsame
        · rw [hfd]
          exact fun hmem => hleaves.notMem (listenFds_delIoEventMask_subset _ _ _ _ hmem)
    · exact hc₁
  · exact Or.inl (hpool.send hsend)

end Lars.Reactor.TcpConn

namespace Lars.Dns

open Machine Reactor

/-- A `tcp_conn`, apart from what it shares with the other connections of its loop. -/
structure LoopConn where
  fd : ℤ
  ibuf : Option IoBuf := none
  obuf : Option IoBuf := none
  state : ConnState := .connected

/-- A loop of the DNS server: the descriptors it listens on for itself, its registry, the table
`t_event_loop_conns` of its thread, its connections with the descriptors that are open for them, and
the subscriptions. -/
structure PushLoop where
  own : Finset ℤ
  loop : EventLoop ConnCallback
  conns : ℤ → Option ℕ
  objects : ℕ → Option LoopConn
  openFds : Finset ℤ
  subscriptions : SubscribeList

/-- A `send` of `push_change_task`: the key, with the bytes of its response, the pool as it is then
and the answer of `epoll_ctl`. -/
structure Pushing where
  fd : ℤ
  modcmd : UInt64
  body : List UInt8
  pool : BufPool
  ctl : Bool

/-- The tasks and events of a loop. -/
inductive PushEvent
  /-- `tcp_conn::listen_read` of a new connection, with `dns_server::on_build`. -/
  | listenRead (self : ℕ) (fd : ℤ) (ctl : Bool)
  /-- A read or write event of an open connection, or a `send` on it. -/
  | call (self : ℕ) (ev : TcpConn.Event)
  /-- `tcp_conn::close` of an open connection. -/
  | close (self : ℕ) (pool : BufPool) (ctl : Bool)
  /-- The last pointer to a connection is gone. -/
  | destroy (self : ℕ) (pool : BufPool) (ctl : Bool)
  /-- `subscribe_list::publish`, with the sends in the order in which it makes them. -/
  | publish (changeMods : List UInt64) (pushes : List Pushing)

/-- Why a loop does not go on. -/
inductive PushHalt
  /-- The event cannot happen. -/
  | disabled
  /-- A call through a null pointer. -/
  | null
  /-- The process ends in the event. -/
  | halt (t : Halt)
  deriving DecidableEq

namespace PushLoop

/-- A loop that has not opened a connection yet. -/
def start (loop : EventLoop ConnCallback) : PushLoop where
  own := loop.listenFds
  loop := loop
  conns _ := none
  objects _ := none
  openFds := ∅
  subscriptions := {}

/-- A connection as its own code has it. -/
def view (s : PushLoop) (self : ℕ) (o : LoopConn) (pool : BufPool) : TcpConn where
  fd := o.fd
  ibuf := o.ibuf
  obuf := o.obuf
  loop := s.loop
  pool := pool
  own := ⟨self, o.state, s.conns, []⟩

/-- The loop as the code of a connection leaves it. -/
def store (s : PushLoop) (c : TcpConn) : PushLoop :=
  { s with
    loop := c.loop
    conns := c.own.conns
    objects := Function.update s.objects c.own.self (some ⟨c.fd, c.ibuf, c.obuf, c.own.state⟩) }

/-- The key that `dns_server::on_build` subscribes to. -/
def onBuildKey : UInt64 := ((1 : UInt64) <<< 32) + 2

/-- The sends of `push_change_task`. A connection is looked up for each of them here, and once for
all keys of its descriptor in the source; what is sent does not change the table. -/
def pushChange : List Pushing → PushLoop → Except PushHalt PushLoop
  | [], s => .ok s
  | p :: ps, s =>
    match (s.conns p.fd).bind fun self => (s.objects self).map (Prod.mk self) with
    | none => .error .null
    | some (self, o) =>
      match TcpConn.send MessageId.getRouteResponse.toInt p.body p.ctl (s.view self o p.pool) with
      | .error t => .error (.halt t)
      | .ok (_, c) => pushChange ps (s.store c)

/-- An open connection with the code of an event. -/
def onOpen (s : PushLoop) (self : ℕ) (pool : BufPool) (f : TcpConn → Except Halt TcpConn) :
    Except PushHalt (Unit × PushLoop) :=
  match s.objects self with
  | none => .error .disabled
  | some o =>
    if o.state ≠ .connected then .error .disabled
    else
      match f (s.view self o pool) with
      | .error t => .error (.halt t)
      | .ok c => .ok ((), s.store c)

/-- An event. -/
def step (s : PushLoop) : PushEvent → Except PushHalt (Unit × PushLoop)
  | .listenRead self fd ctl =>
    if s.objects self ≠ none ∨ fd ∈ s.own ∨ fd ∈ s.openFds then .error .disabled
    else
      match TcpConn.listenRead ctl [] (s.view self { fd } (.ofCounts fun _ => 0)) with
      | .error t => .error (.halt t)
      | .ok c => .ok ((), { s.store c with
          openFds := insert fd s.openFds
          subscriptions := s.subscriptions.subscribe fd onBuildKey })
  | .call self ev => s.onOpen self ev.pool fun c => do
    let (_, c) ← TcpConn.step c ev
    .ok c
  | .close self pool ctl => s.onOpen self pool fun c => .ok (c.close ctl)
  | .destroy self pool ctl =>
    match s.objects self with
    | none => .error .disabled
    | some o =>
      if s.conns o.fd = some self then .error .disabled
      else
        let s := s.store ((s.view self o pool).close ctl)
        .ok ((), { s with
          objects := Function.update s.objects self none
          openFds := if o.fd > 0 then s.openFds.erase o.fd else s.openFds })
  | .publish changeMods pushes =>
    let (needPublish, subscriptions) :=
      (changeMods.foldl SubscribeList.markChange s.subscriptions).makePublishMap s.loop.listenFds
    if (pushes.map fun p => (p.fd, p.modcmd) : Multiset (ℤ × UInt64)) ≠ needPublish.pairs then
      .error .disabled
    else
      match pushChange pushes { s with subscriptions } with
      | .error t => .error t
      | .ok s => .ok ((), s)

/-! ## The tables of a loop -/

/-- The table has the connection on `fd`, and it is open. -/
def OpenOn (s : PushLoop) (fd : ℤ) : Prop :=
  ∃ self o, s.conns fd = some self ∧ s.objects self = some o ∧ o.fd = fd ∧ o.state = .connected

/-- The tables between two tasks or events. -/
structure Sound (s : PushLoop) : Prop where
  /-- The descriptors of the connections are open, and not the loop's own. -/
  opened : ∀ self o, s.objects self = some o → o.fd ∈ s.openFds ∧ o.fd ∉ s.own
  /-- No two connections have a descriptor in common. -/
  unique : ∀ self self' o o', s.objects self = some o → s.objects self' = some o' →
    o.fd = o'.fd → self = self'
  /-- An open connection is in the table. -/
  entry : ∀ self o, s.objects self = some o → o.state = .connected → s.conns o.fd = some self
  /-- What is listened on is the loop's own or an open connection. -/
  listening : ∀ fd ∈ s.loop.listenFds, fd ∉ s.own →
    ∃ self o, s.objects self = some o ∧ o.fd = fd ∧ o.state = .connected
  /-- What is listened on is registered, so that `del_io_event` finds it. -/
  listed : ∀ fd, fd ∉ s.own → s.loop.Listed fd
  /-- Nobody subscribes for the loop's own descriptors. -/
  subscribed : ∀ i, ∀ fd ∈ s.subscriptions.subscribeMap.get i, fd ∉ s.own
  pending : ∀ fd ∈ s.subscriptions.publishMap, fd ∉ s.own

theorem sound_start (loop : EventLoop ConnCallback) : (start loop).Sound where
  opened _ _ h := nomatch h
  unique _ _ _ _ h := nomatch h
  entry _ _ h := nomatch h
  listening fd hfd hown := absurd hfd hown
  listed fd hown hfd := absurd hfd hown
  subscribed i fd h := by simp [start] at h
  pending fd h := absurd h Finmap.notMem_empty

/-- A descriptor listened on that is not the loop's own is that of an open connection, which is in
the table. -/
theorem Sound.openOn {s : PushLoop} (hs : s.Sound) {fd : ℤ} (hfd : fd ∈ s.loop.listenFds)
    (hown : fd ∉ s.own) : s.OpenOn fd := by
  obtain ⟨self, o, ho, rfl, hstate⟩ := hs.listening fd hfd hown
  exact ⟨self, o, hs.entry self o ho hstate, ho, rfl, hstate⟩

theorem objects_store {s : PushLoop} {c : TcpConn} {self : ℕ} {o : LoopConn} :
    (s.store c).objects self = some o ↔
      self = c.own.self ∧ o = ⟨c.fd, c.ibuf, c.obuf, c.own.state⟩ ∨
        self ≠ c.own.self ∧ s.objects self = some o := by
  unfold store
  obtain rfl | hne := eq_or_ne self c.own.self
  · simp [eq_comm]
  · simp [hne]

/-- What a connection's code does to its own registration and its own entry leaves the tables as
they have to be. -/
theorem Sound.store {s : PushLoop} (hs : s.Sound) {c : TcpConn}
    (hopen : c.fd ∈ s.openFds ∧ c.fd ∉ s.own)
    (hself : ∀ self o, s.objects self = some o → (o.fd = c.fd ↔ self = c.own.self))
    (hconns : ∀ fd, fd ≠ c.fd → c.own.conns fd = s.conns fd)
    (hoff : EventLoop.SameOff c.fd s.loop c.loop) (hlisted : c.loop.Listed c.fd)
    (hentry : c.own.state = .connected → c.own.conns c.fd = some c.own.self)
    (hlisten : c.fd ∈ c.loop.listenFds → c.own.state = .connected) : (s.store c).Sound where
  opened self o ho := by
    rcases objects_store.mp ho with ⟨-, rfl⟩ | ⟨-, hold⟩
    · exact hopen
    · exact hs.opened self o hold
  unique self self' o o' ho ho' hfd := by
    rcases objects_store.mp ho with ⟨rfl, rfl⟩ | ⟨hne, hold⟩ <;>
      rcases objects_store.mp ho' with ⟨rfl, rfl⟩ | ⟨hne', hold'⟩
    · rfl
    · exact ((hself self' o' hold').mp hfd.symm).symm
    · exact (hself self o hold).mp hfd
    · exact hs.unique self self' o o' hold hold' hfd
  entry self o ho hstate := by
    rcases objects_store.mp ho with ⟨rfl, rfl⟩ | ⟨hne, hold⟩
    · exact hentry hstate
    · exact (hconns o.fd (mt (hself self o hold).mp hne)).trans (hs.entry self o hold hstate)
  listening fd hfd hown := by
    obtain rfl | hne := eq_or_ne fd c.fd
    · exact ⟨_, _, objects_store.mpr (Or.inl ⟨rfl, rfl⟩), rfl, hlisten hfd⟩
    · obtain ⟨self, o, ho, rfl, hstate⟩ := hs.listening fd ((hoff fd hne).1.mp hfd) hown
      exact ⟨self, o, objects_store.mpr (Or.inr ⟨mt (hself self o ho).mpr hne, ho⟩), rfl, hstate⟩
  listed fd hown := by
    obtain rfl | hne := eq_or_ne fd c.fd
    · exact hlisted
    · exact hoff.listed hne (hs.listed fd hown)
  subscribed := hs.subscribed
  pending := hs.pending

section Call

variable {s : PushLoop} {self : ℕ} {o : LoopConn} {pool : BufPool} {c : TcpConn}

theorem Sound.fd_eq_iff (hs : s.Sound) (ho : s.objects self = some o) (self' : ℕ) (o' : LoopConn)
    (ho' : s.objects self' = some o') : o'.fd = o.fd ↔ self' = self := by
  constructor
  · exact hs.unique self' self o' o ho' ho
  · rintro rfl
    rw [ho] at ho'
    cases ho'
    rfl

theorem Sound.stays (hs : s.Sound) (ho : s.objects self = some o) (hstate : o.state = .connected)
    (hc : TcpConn.Stays (s.view self o pool) c) : (s.store c).Sound := by
  obtain ⟨hfd, hown, hoff, hlisted⟩ := hc
  have hconns : c.own.conns = s.conns := congrArg ConnOwn.conns hown
  have hself : c.own.self = self := congrArg ConnOwn.self hown
  have hfd : c.fd = o.fd := hfd
  refine hs.store ?_ ?_ ?_ ?_ ?_ ?_ ?_
  · exact hfd ▸ hs.opened self o ho
  · rw [hfd, hself]
    exact hs.fd_eq_iff ho
  · exact fun fd _ => congrFun hconns fd
  · exact hfd ▸ hoff
  · exact hfd ▸ hlisted
  · rw [hconns, hself, hfd]
    exact fun _ => hs.entry self o ho hstate
  · exact fun _ => (congrArg ConnOwn.state hown).trans hstate

theorem OpenOn.stays {fd : ℤ} (h : s.OpenOn fd) (ho : s.objects self = some o)
    (hstate : o.state = .connected) (hc : TcpConn.Stays (s.view self o pool) c) :
    (s.store c).OpenOn fd := by
  obtain ⟨self', o', hconns, ho', hfd, hstate'⟩ := h
  have hconns' : (s.store c).conns fd = some self' :=
    (congrFun (congrArg ConnOwn.conns hc.own) fd).trans hconns
  have hself : c.own.self = self := congrArg ConnOwn.self hc.own
  obtain rfl | hne := eq_or_ne self' self
  · cases ho.symm.trans ho'
    exact ⟨self', _, hconns', objects_store.mpr (Or.inl ⟨hself.symm, rfl⟩), hc.fd.trans hfd,
      (congrArg ConnOwn.state hc.own).trans hstate⟩
  · exact ⟨self', o', hconns', objects_store.mpr (Or.inr ⟨hself ▸ hne, ho'⟩), hfd, hstate'⟩

theorem Sound.leaves (hs : s.Sound) (ho : s.objects self = some o)
    (hc : TcpConn.Leaves (s.view self o pool) c) : (s.store c).Sound := by
  obtain ⟨hfd, hself, hstate, hconns, hoff, hnot⟩ := hc
  have hfd : c.fd = o.fd := hfd
  have hself : c.own.self = self := hself
  have hnot : c.fd ∉ c.loop.listenFds := hfd ▸ hnot
  refine hs.store ?_ ?_ ?_ ?_ ?_ ?_ ?_
  · exact hfd ▸ hs.opened self o ho
  · rw [hfd, hself]
    exact hs.fd_eq_iff ho
  · intro fd hne
    rw [hconns]
    show Function.update s.conns o.fd none fd = s.conns fd
    exact Function.update_of_ne (hfd ▸ hne) _ _
  · exact hfd ▸ hoff
  · exact fun hmem => absurd hmem hnot
  · exact fun hconn => absurd hconn hstate
  · exact fun hmem => absurd hmem hnot

end Call

/-! ## The events -/

/-- `listen_read` of a connection on a descriptor that was not open. -/
theorem Sound.listenRead {s : PushLoop} (hs : s.Sound) {self : ℕ} {fd : ℤ} {ctl : Bool}
    {pool : BufPool} {c : TcpConn} (hnew : s.objects self = none) (hown : fd ∉ s.own)
    (hopen : fd ∉ s.openFds)
    (h : TcpConn.listenRead ctl [] (s.view self { fd } pool) = .ok c) :
    Sound { s.store c with
      openFds := insert fd s.openFds
      subscriptions := s.subscriptions.subscribe fd onBuildKey } := by
  have hs' : Sound { s with
      openFds := insert fd s.openFds
      subscriptions := s.subscriptions.subscribe fd onBuildKey } :=
    { opened := fun self' o ho => (hs.opened self' o ho).imp_left (Finset.mem_insert_of_mem)
      unique := hs.unique
      entry := hs.entry
      listening := hs.listening
      listed := hs.listed
      subscribed := by
        intro i fd' hfd'
        rcases SetMap.mem_get_emplace.mp hfd' with ⟨-, rfl⟩ | hold
        · exact hown
        · exact hs.subscribed i fd' hold
      pending := hs.pending }
  show Sound (PushLoop.store { s with
    openFds := insert fd s.openFds
    subscriptions := s.subscriptions.subscribe fd onBuildKey } c)
  cases h
  refine hs'.store ⟨Finset.mem_insert_self _ _, hown⟩ ?_ ?_ ?_ ?_ ?_ ?_
  · intro self' o ho
    refine iff_of_false ?_ ?_
    · rintro rfl
      exact hopen (hs.opened self' o ho).1
    · rintro rfl
      cases hnew.symm.trans ho
  · exact fun fd' hne => Function.update_of_ne hne _ _
  · exact EventLoop.addIoEvent_sameOff _ ctl _ _ _
  · exact EventLoop.addIoEvent_listed _ ctl _ _ _
  · exact fun _ => Function.update_self ..
  · exact fun _ => rfl

theorem store_view {s : PushLoop} {self : ℕ} {o : LoopConn} (ho : s.objects self = some o)
    (pool : BufPool) : s.store (s.view self o pool) = s := by
  have hobjects : Function.update s.objects self (some o) = s.objects :=
    Function.update_eq_self_iff.mpr ho.symm
  unfold store view
  rw [hobjects]

/-- The end of a connection that is not open. -/
theorem Sound.destroy {s : PushLoop} (hs : s.Sound) {self : ℕ} {o : LoopConn}
    (ho : s.objects self = some o) (hstate : o.state ≠ .connected) :
    Sound { s with
      objects := Function.update s.objects self none
      openFds := if o.fd > 0 then s.openFds.erase o.fd else s.openFds } := by
  have hold : ∀ self' o', Function.update s.objects self none self' = some o' →
      self' ≠ self ∧ s.objects self' = some o' := fun _ _ => update_none_eq_some.mp
  refine ⟨?_, ?_, ?_, ?_, hs.listed, hs.subscribed, hs.pending⟩
  · intro self' o' h
    obtain ⟨hne, h⟩ := hold self' o' h
    refine (hs.opened self' o' h).imp_left fun hmem => ?_
    dsimp only
    split_ifs
    · exact Finset.mem_erase.mpr ⟨mt (hs.fd_eq_iff ho self' o' h).mp hne, hmem⟩
    · exact hmem
  · intro self₁ self₂ o₁ o₂ h₁ h₂
    exact hs.unique self₁ self₂ o₁ o₂ (hold self₁ o₁ h₁).2 (hold self₂ o₂ h₂).2
  · intro self' o' h
    exact hs.entry self' o' (hold self' o' h).2
  · intro fd hfd hown
    obtain ⟨self', o', ho', hfd', hstate'⟩ := hs.listening fd hfd hown
    refine ⟨self', o', ?_, hfd', hstate'⟩
    have hne : self' ≠ self := by
      rintro rfl
      cases ho.symm.trans ho'
      exact hstate hstate'
    exact update_none_eq_some.mpr ⟨hne, ho'⟩

/-- A descriptor that keys wait for once changes are marked is one that keys waited for before, or
one that has subscribed. -/
theorem mem_publishMap_foldl_markChange {mods : List UInt64} {subs : SubscribeList} {fd : ℤ}
    (h : fd ∈ (mods.foldl SubscribeList.markChange subs).publishMap) :
    fd ∈ subs.publishMap ∨ ∃ i, fd ∈ subs.subscribeMap.get i := by
  induction mods generalizing subs with
  | nil => exact Or.inl h
  | cons mod mods ih =>
    have hmap : (subs.markChange mod).subscribeMap = subs.subscribeMap :=
      SubscribeList.subscribeMap_foldl_markChange [mod] subs
    rcases ih h with hpending | ⟨i, hi⟩
    · unfold SubscribeList.markChange at hpending
      split at hpending
      · exact Or.inl hpending
      · rename_i fds hfds
        rcases SetMap.mem_emplaceAt.mp hpending with hnew | hold
        · exact Or.inr ⟨toInt mod, SetMap.get_of_lookup hfds ▸ hnew⟩
        · exact Or.inl hold
    · exact Or.inr ⟨i, hmap ▸ hi⟩

section Publish

variable {s : PushLoop} {changeMods : List UInt64}

theorem Sound.notMem_own (hs : s.Sound) {fd : ℤ}
    (h : fd ∈ (changeMods.foldl SubscribeList.markChange s.subscriptions).publishMap) :
    fd ∉ s.own := by
  rcases mem_publishMap_foldl_markChange h with hpending | ⟨i, hi⟩
  · exact hs.pending fd hpending
  · exact hs.subscribed i fd hi

/-- `make_publish_map` selects descriptors of open connections only. -/
theorem Sound.openOn_of_mem (hs : s.Sound) {fd : ℤ}
    (h : fd ∈ ((changeMods.foldl SubscribeList.markChange s.subscriptions).makePublishMap
      s.loop.listenFds).1) : s.OpenOn fd := by
  obtain ⟨hlisten, hmarked⟩ := SetMap.mem_of_mem_extract_snd h
  exact hs.openOn hlisten (hs.notMem_own hmarked)

variable (changeMods) in
theorem Sound.makePublishMap (hs : s.Sound) (fds : Finset ℤ) :
    Sound { s with subscriptions :=
      ((changeMods.foldl SubscribeList.markChange s.subscriptions).makePublishMap fds).2 } where
  opened := hs.opened
  unique := hs.unique
  entry := hs.entry
  listening := hs.listening
  listed := hs.listed
  subscribed i fd hfd := by
    have hmap := SubscribeList.subscribeMap_foldl_markChange changeMods s.subscriptions
    exact hs.subscribed i fd (hmap ▸ hfd)
  pending fd hfd := hs.notMem_own (SetMap.mem_of_mem_extract_fst hfd)

/-- The sends of a push go to open connections, and leave them open. -/
theorem Sound.pushChange {pushes : List Pushing} (hs : s.Sound)
    (hopen : ∀ p ∈ pushes, s.OpenOn p.fd) :
    Ends Sound (· ≠ .null) (PushLoop.pushChange pushes s) := by
  induction pushes generalizing s with
  | nil => exact ends_ok hs
  | cons p pushes ih =>
    obtain ⟨self, o, hconns, ho, hfd, hstate⟩ := hopen p List.mem_cons_self
    have hfound : ((s.conns p.fd).bind fun self => (s.objects self).map (Prod.mk self)) =
        some (self, o) := by
      rw [hconns, Option.bind_some, ho, Option.map_some]
    unfold PushLoop.pushChange
    rw [hfound]
    dsimp only
    cases hsend : TcpConn.send MessageId.getRouteResponse.toInt p.body p.ctl
      (s.view self o p.pool) with
    | error t => exact ends_error nofun
    | ok r =>
      obtain ⟨ret, c⟩ := r
      have hown : o.fd ∉ s.own := (hs.opened self o ho).2
      have hc : TcpConn.Stays (s.view self o p.pool) c :=
        TcpConn.Stays.send (.refl (hs.listed o.fd hown)) hsend
      refine ih (hs.stays ho hstate hc) fun p' hp' => ?_
      exact (hopen p' (List.mem_cons_of_mem p hp')).stays ho hstate hc

variable (changeMods) in
/-- `publish` selects descriptors of open connections, and sends to them. -/
theorem Sound.publish (hs : s.Sound) (pushes : List Pushing) :
    Ends (fun o => Sound o.2) (· ≠ .null) (PushLoop.step s (.publish changeMods pushes)) := by
  have hselected : ∀ fd ∈ ((changeMods.foldl SubscribeList.markChange
      s.subscriptions).makePublishMap s.loop.listenFds).1, s.OpenOn fd :=
    fun fd hfd => hs.openOn_of_mem hfd
  have hs' := hs.makePublishMap changeMods s.loop.listenFds
  unfold PushLoop.step
  dsimp only
  cases hmap : (changeMods.foldl SubscribeList.markChange s.subscriptions).makePublishMap
    s.loop.listenFds with
  | mk needPublish subscriptions =>
    rw [hmap] at hselected hs'
    dsimp only
    split_ifs with hdue
    · exact ends_error nofun
    · have hopen : ∀ p ∈ pushes, s.OpenOn p.fd := by
        intro p hp
        have hpair : (p.fd, p.modcmd) ∈ needPublish.pairs := by
          rw [← not_not.mp hdue]
          exact Multiset.mem_coe.mpr (List.mem_map_of_mem hp)
        exact hselected p.fd (SetMap.mem_of_mem_get (SetMap.mem_pairs.mp hpair))
      have hpush := hs'.pushChange hopen
      cases hpushed : PushLoop.pushChange pushes { s with subscriptions } with
      | error t => exact ends_error (hpush.error t hpushed)
      | ok s' => exact ends_ok (hpush.ok s' hpushed)

end Publish

/-- An event of an open connection. -/
theorem Sound.onOpen {s : PushLoop} (hs : s.Sound) {self : ℕ} {pool : BufPool}
    {f : TcpConn → Except Halt TcpConn}
    (hf : ∀ c₀ c, c₀.own.state = .connected → c₀.loop.Listed c₀.fd → f c₀ = .ok c →
      TcpConn.Stays c₀ c ∨ TcpConn.Leaves c₀ c) :
    Ends (fun o => Sound o.2) (· ≠ .null) (s.onOpen self pool f) := by
  unfold PushLoop.onOpen
  cases ho : s.objects self with
  | none => exact ends_error nofun
  | some o =>
    dsimp only
    split_ifs with hstate
    · exact ends_error nofun
    · have hstate : o.state = .connected := not_not.mp hstate
      cases hcall : f (s.view self o pool) with
      | error t => exact ends_error nofun
      | ok c =>
        refine ends_ok ?_
        rcases hf _ c hstate (hs.listed o.fd (hs.opened self o ho).2) hcall with hstays | hleaves
        · exact hs.stays ho hstate hstays
        · exact hs.leaves ho hleaves

/-- **A task or an event** leaves the tables as they have to be, and calls nothing through a null
pointer. -/
theorem Sound.step {s : PushLoop} (hs : s.Sound) (e : PushEvent) :
    Ends (fun o => Sound o.2) (· ≠ .null) (PushLoop.step s e) := by
  cases e with
  | listenRead self fd ctl =>
    unfold PushLoop.step
    dsimp only
    split_ifs with hdisabled
    · exact ends_error nofun
    · push Not at hdisabled
      obtain ⟨hnew, hown, hopen⟩ := hdisabled
      cases hlisten : TcpConn.listenRead ctl [] (s.view self { fd } (.ofCounts fun _ => 0)) with
      | error t => exact ends_error nofun
      | ok c => exact ends_ok (hs.listenRead hnew hown hopen hlisten)
  | call self ev =>
    unfold PushLoop.step
    refine hs.onOpen fun c₀ c hstate hlisted h => ?_
    obtain ⟨⟨o, c₁⟩, hstep, h⟩ := bind_eq_ok.mp h
    cases h
    exact TcpConn.stays_or_leaves_of_step hstate hlisted hstep
  | close self pool ctl =>
    unfold PushLoop.step
    refine hs.onOpen fun c₀ c hstate hlisted h => ?_
    cases h
    exact Or.inr ((TcpConn.Stays.refl hlisted).close hstate ctl)
  | destroy self pool ctl =>
    unfold PushLoop.step
    dsimp only
    cases ho : s.objects self with
    | none => exact ends_error nofun
    | some o =>
      dsimp only
      by_cases hentry : s.conns o.fd = some self
      · rw [if_pos hentry]
        exact ends_error nofun
      · have hstate : o.state ≠ .connected := mt (hs.entry self o ho) hentry
        have hclose : (s.view self o pool).close ctl = s.view self o pool := if_pos hstate
        rw [if_neg hentry, hclose, store_view ho]
        exact ends_ok (hs.destroy ho hstate)
  | publish changeMods pushes => exact hs.publish changeMods pushes

/-- **A push goes to open connections**: whatever tasks and events a loop has gone through,
`make_publish_map` selects descriptors with an open connection that is in the table, and no event
calls anything through a null pointer. -/
theorem push_targets_of_run {loop : EventLoop ConnCallback} {es : List PushEvent}
    {outs : List Unit} {s : PushLoop} (hrun : run PushLoop.step (start loop) es = .ok (outs, s)) :
    (∀ changeMods : List UInt64,
      ∀ fd ∈ ((changeMods.foldl SubscribeList.markChange s.subscriptions).makePublishMap
        s.loop.listenFds).1, s.OpenOn fd) ∧
    ∀ e, PushLoop.step s e ≠ .error .null := by
  have hs : s.Sound :=
    run_invariant (fun s e o s' hs h => (hs.step e).ok (o, s') h) (sound_start loop) hrun
  refine ⟨fun changeMods fd hfd => hs.openOn_of_mem hfd, fun e h => ?_⟩
  exact (hs.step e).error _ h rfl

/-- A connection is opened, closed and gone, and the next one gets its descriptor. -/
theorem push_targets_reused : ∃ outs s,
    run PushLoop.step (start {})
      [.listenRead 1 5 true, .close 1 (.ofCounts fun _ => 2) true,
        .destroy 1 (.ofCounts fun _ => 2) true, .listenRead 2 5 true,
        .publish [onBuildKey] [⟨5, onBuildKey, [], .ofCounts fun _ => 2, true⟩]] =
      .ok (outs, s) ∧
    (∀ changeMods : List UInt64,
      ∀ fd ∈ ((changeMods.foldl SubscribeList.markChange s.subscriptions).makePublishMap
        s.loop.listenFds).1, s.OpenOn fd) ∧
    ∀ e, PushLoop.step s e ≠ .error .null := by
  have hrun : run PushLoop.step (start {})
      [.listenRead 1 5 true, .close 1 (.ofCounts fun _ => 2) true,
        .destroy 1 (.ofCounts fun _ => 2) true, .listenRead 2 5 true,
        .publish [onBuildKey] [⟨5, onBuildKey, [], .ofCounts fun _ => 2, true⟩]] =
      .ok (_, _) := rfl
  exact ⟨_, _, hrun, push_targets_of_run hrun⟩

end PushLoop

end Lars.Dns
