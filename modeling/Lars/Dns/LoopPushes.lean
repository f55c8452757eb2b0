import Lars.Dns.Subscribe
import Lars.Reactor.TcpConn

/-!
# Pushes on one loop

A loop of the DNS server opens connections (`tcp_conn::listen_read`, whose `on_build` callback
subscribes to keys), publishes changes (`subscribe_list::publish`), and closes connections
(`tcp_conn::close`). The kernel gives the descriptor of a closed connection to a new one.

A connection should only be sent what it has itself asked for, and nothing should be left of one
that is closed. But `close` takes nothing out of the maps of `subscribe_list`, which know
connections by their descriptors, and a subscription loses the upper half of its key.

* All is as it should be if and only if no connection is closed that has subscribed, and no key is
  published that shares its lower half with a key that somebody online has subscribed to without
  having subscribed to this one (`pushes_due_iff`).
-/

namespace Lars.Dns

open Machine Reactor

/-- A connection, with the keys it has subscribed to and those published since it was opened. -/
structure Client where
  self : ℕ
  asked : Finset UInt64
  announced : Finset UInt64 := ∅
  deriving DecidableEq

/-- A loop: its registry, the table `t_event_loop_conns` of its thread, and the subscriptions. -/
structure DnsLoop where
  loop : EventLoop ConnCallback
  conns : ℤ → Option Client
  subscriptions : SubscribeList

/-- What happens on a loop; `ctl` is the answer of `epoll_ctl`. -/
inductive LoopEvent
  /-- `tcp_conn::listen_read` of the object `self`, which subscribes to `keys`. -/
  | listenRead (self : ℕ) (fd : ℤ) (keys : List UInt64) (ctl : Bool)
  /-- `subscribe_list::publish`. -/
  | publish (changeMods : List UInt64) (route : Int32 → Int32 → Finset UInt64)
  /-- `tcp_conn::close` of the connection on `fd`. -/
  | close (fd : ℤ) (ctl : Bool)

/-- A response sent, with the connection found in `t_event_loop_conns`. -/
structure Push where
  client : Option Client
  response : GetRouteResponse
  deriving DecidableEq

/-- The response is for a key that its connection has asked for, published while it was open. -/
def Push.Due (p : Push) : Prop :=
  ∃ client, p.client = some client ∧ ∃ key ∈ client.asked, key ∈ client.announced ∧
    p.response.modid = toInt (key >>> 32) ∧ p.response.cmdid = toInt key

namespace DnsLoop

/-- A loop that has not opened a connection yet. -/
def start (loop : EventLoop ConnCallback) : DnsLoop := ⟨loop, fun _ => none, {}⟩

/-- The connections once keys are published. -/
def announce (mods : List UInt64) (conns : ℤ → Option Client) : ℤ → Option Client :=
  fun fd => (conns fd).map fun client =>
    { client with announced := client.announced ∪ mods.toFinset }

/-- An event, with the responses sent. A `send` registers `EPOLLOUT` at most, on a descriptor that
is listened on already; the registry is left as it is here. -/
def step (s : DnsLoop) : LoopEvent → Except Disabled (Multiset Push × DnsLoop)
  | .listenRead self fd keys ctl =>
    match s.conns fd with
    | some _ => .error .disabled
    | none => .ok (0,
      { loop := s.loop.addIoEvent ctl fd epollIn (.handleRead self)
        conns := Function.update s.conns fd (some { self, asked := keys.toFinset })
        subscriptions := keys.foldl (fun subs key => subs.subscribe fd key) s.subscriptions })
  | .publish changeMods route =>
    let (sent, subscriptions) := s.subscriptions.publish changeMods s.loop.listenFds route
    let conns := announce changeMods s.conns
    .ok (sent.map fun p => ⟨conns p.1, p.2⟩, { s with conns, subscriptions })
  | .close fd ctl =>
    match s.conns fd with
    | none => .error .disabled
    | some _ => .ok (0,
      { s with loop := s.loop.delIoEvent ctl fd, conns := Function.update s.conns fd none })

/-- The maps have entries for open connections only. -/
def Clean (s : DnsLoop) : Prop :=
  ∀ fd, s.conns fd = none →
    (∀ i, fd ∉ s.subscriptions.subscribeMap.get i) ∧ s.subscriptions.publishMap.get fd = ∅

/-- The events that the loop gets right: a connection is closed only if it has not subscribed to
anything, and a key is published only if everybody online who has subscribed to a key with its lower
half has subscribed to it. -/
def Meets (s : DnsLoop) : LoopEvent → Prop
  | .listenRead _ _ _ _ => True
  | .publish changeMods _ =>
    ∀ mod ∈ changeMods, ∀ fd ∈ s.loop.listenFds, ∀ client, s.conns fd = some client →
      ∀ key ∈ client.asked, toInt key = toInt mod → mod ∈ client.asked
  | .close fd _ => ∀ client, s.conns fd = some client → client.asked = ∅

/-! ## The entries of the maps -/

/-- The maps at all times: a descriptor is found under the lower halves of the keys that its
connection has asked for, keys wait for descriptors found under them, and for nobody online. -/
structure Tracks (s : DnsLoop) : Prop where
  subscribed : ∀ fd i, fd ∈ s.subscriptions.subscribeMap.get i ↔
    ∃ client, s.conns fd = some client ∧ ∃ key ∈ client.asked, toInt key = i
  pending : ∀ fd key, key ∈ s.subscriptions.publishMap.get fd →
    fd ∈ s.subscriptions.subscribeMap.get (toInt key)
  online : ∀ fd ∈ s.loop.listenFds, s.subscriptions.publishMap.get fd = ∅

theorem tracks_start (loop : EventLoop ConnCallback) : (start loop).Tracks where
  subscribed fd i := by simp [start, SetMap.get_empty]
  pending fd key h := by simp [start, SetMap.get_empty] at h
  online fd _ := SetMap.get_empty fd

theorem Tracks.clean {s : DnsLoop} (hs : s.Tracks) : s.Clean := by
  intro fd hfd
  have hnone : ∀ i, fd ∉ s.subscriptions.subscribeMap.get i := by
    intro i hi
    obtain ⟨client, hclient, -⟩ := (hs.subscribed fd i).mp hi
    rw [hfd] at hclient
    cases hclient
  refine ⟨hnone, Finset.eq_empty_of_forall_notMem fun key hkey => ?_⟩
  exact hnone _ (hs.pending fd key hkey)

/-! ## What an event does -/

/-- What an event does. -/
inductive Made (s : DnsLoop) : LoopEvent → Multiset Push → DnsLoop → Prop
  | listenRead {self : ℕ} {fd : ℤ} {keys : List UInt64} {ctl : Bool} (h : s.conns fd = none) :
    Made s (.listenRead self fd keys ctl) 0
      { loop := s.loop.addIoEvent ctl fd epollIn (.handleRead self)
        conns := Function.update s.conns fd (some { self, asked := keys.toFinset })
        subscriptions := keys.foldl (fun subs key => subs.subscribe fd key) s.subscriptions }
  | publish {mods : List UInt64} {route : Int32 → Int32 → Finset UInt64} :
    Made s (.publish mods route)
      ((s.subscriptions.publish mods s.loop.listenFds route).1.map fun p =>
        ⟨announce mods s.conns p.1, p.2⟩)
      { s with
        conns := announce mods s.conns
        subscriptions := (s.subscriptions.publish mods s.loop.listenFds route).2 }
  | close {fd : ℤ} {ctl : Bool} {client : Client} (h : s.conns fd = some client) :
    Made s (.close fd ctl) 0
      { s with loop := s.loop.delIoEvent ctl fd, conns := Function.update s.conns fd none }

theorem made_of_step {s s' : DnsLoop} {e : LoopEvent} {o : Multiset Push}
    (h : step s e = .ok (o, s')) : Made s e o s' := by
  cases e with
  | listenRead self fd keys ctl =>
    simp only [step] at h
    split at h <;> cases h
    exact .listenRead ‹_›
  | publish mods route =>
    cases h
    exact .publish
  | close fd ctl =>
    simp only [step] at h
    split at h <;> cases h
    exact .close ‹_›

theorem announce_eq_some {mods : List UInt64} {conns : ℤ → Option Client} {fd : ℤ}
    {client : Client} :
    announce mods conns fd = some client ↔
      ∃ client₀, conns fd = some client₀ ∧
        { client₀ with announced := client₀.announced ∪ mods.toFinset } = client :=
  Option.map_eq_some_iff

theorem Tracks.listenRead {s : DnsLoop} (hs : s.Tracks) {fd : ℤ} (h : s.conns fd = none)
    (self : ℕ) (keys : List UInt64) (ctl : Bool) :
    Tracks {
      loop := s.loop.addIoEvent ctl fd epollIn (.handleRead self)
      conns := Function.update s.conns fd (some { self, asked := keys.toFinset })
      subscriptions := keys.foldl (fun subs key => subs.subscribe fd key) s.subscriptions } where
  subscribed fd' i := by
    dsimp only
    rw [SubscribeList.mem_subscribeMap_foldl_subscribe]
    by_cases hfd : fd' = fd
    · rw [hfd, Function.update_self]
      constructor
      · rintro (hold | ⟨-, key, hkey, hi⟩)
        · exact absurd hold ((hs.clean fd h).1 i)
        · exact ⟨_, rfl, key, List.mem_toFinset.mpr hkey, hi⟩
      · rintro ⟨_, ⟨⟩, key, hkey, hi⟩
        exact Or.inr ⟨rfl, key, List.mem_toFinset.mp hkey, hi⟩
    · rw [Function.update_of_ne hfd, ← hs.subscribed]
      simp [hfd]
  pending fd' key hkey := by
    rw [SubscribeList.publishMap_foldl_subscribe] at hkey
    exact SubscribeList.mem_subscribeMap_foldl_subscribe.mpr (Or.inl (hs.pending fd' key hkey))
  online fd' hfd' := by
    rw [SubscribeList.publishMap_foldl_subscribe]
    rcases EventLoop.mem_listenFds_addIoEvent hfd' with rfl | hold
    · exact (hs.clean fd' h).2
    · exact hs.online fd' hold

theorem Tracks.publish {s : DnsLoop} (hs : s.Tracks) (mods : List UInt64)
    (route : Int32 → Int32 → Finset UInt64) :
    Tracks { s with
      conns := announce mods s.conns
      subscriptions := (s.subscriptions.publish mods s.loop.listenFds route).2 } where
  subscribed fd i := by
    rw [SubscribeList.subscribeMap_publish, hs.subscribed]
    constructor
    · rintro ⟨client, hclient, key, hkey, hi⟩
      exact ⟨_, announce_eq_some.mpr ⟨client, hclient, rfl⟩, key, hkey, hi⟩
    · rintro ⟨_, hannounce, key, hkey, hi⟩
      obtain ⟨client, hclient, rfl⟩ := announce_eq_some.mp hannounce
      exact ⟨client, hclient, key, hkey, hi⟩
  pending fd key hkey := by
    rw [SubscribeList.subscribeMap_publish]
    rcases ((SubscribeList.mem_publishMap_publish route).mp hkey).2 with hold | ⟨-, hnew⟩
    · exact hs.pending fd key hold
    · exact hnew
  online fd hfd := by
    refine Finset.eq_empty_of_forall_notMem fun key hkey => ?_
    obtain ⟨hoffline, -⟩ := (SubscribeList.mem_publishMap_publish route).mp hkey
    exact hoffline hfd

theorem Tracks.close {s : DnsLoop} (hs : s.Tracks) {fd : ℤ} {client : Client}
    (h : s.conns fd = some client) (hasked : client.asked = ∅) (ctl : Bool) :
    Tracks { s with loop := s.loop.delIoEvent ctl fd,
                    conns := Function.update s.conns fd none } where
  subscribed fd' i := by
    dsimp only
    rw [hs.subscribed]
    by_cases hfd : fd' = fd
    · rw [hfd, Function.update_self, h]
      refine iff_of_false ?_ (by rintro ⟨_, ⟨⟩, -⟩)
      rintro ⟨_, ⟨⟩, key, hkey, -⟩
      rw [hasked] at hkey
      exact Finset.notMem_empty key hkey
    · rw [Function.update_of_ne hfd]
  pending := hs.pending
  online fd' hfd' := hs.online fd' (EventLoop.listenFds_delIoEvent_subset _ _ _ hfd')

theorem Tracks.step {s s' : DnsLoop} {e : LoopEvent} {o : Multiset Push} (hs : s.Tracks)
    (he : s.Meets e) (h : step s e = .ok (o, s')) : s'.Tracks := by
  cases made_of_step h with
  | listenRead hfd => exact hs.listenRead hfd _ _ _
  | publish => exact hs.publish _ _
  | close hfd => exact hs.close hfd (he _ hfd) _

/-! ## The calls of `tcp_conn` -/

/-- The registry and the table of the loop as a connection on it sees them. -/
def Mirrors (s : DnsLoop) (c : TcpConn) : Prop :=
  c.loop = s.loop ∧ c.own.conns = fun fd => (s.conns fd).map Client.self

/-- The event `listenRead` is the call, whose callback sends nothing. -/
theorem Mirrors.listenRead {s s' : DnsLoop} {c c' : TcpConn} (h : s.Mirrors c)
    {keys : List UInt64} {ctl : Bool} {o : Multiset Push}
    (hstep : DnsLoop.step s (.listenRead c.own.self c.fd keys ctl) = .ok (o, s'))
    (hc : TcpConn.listenRead ctl [] c = .ok c') : s'.Mirrors c' := by
  obtain ⟨hloop, hconns⟩ := h
  cases hc
  cases made_of_step hstep with
  | listenRead =>
    refine ⟨congrArg (EventLoop.addIoEvent · ctl c.fd epollIn (.handleRead c.own.self)) hloop, ?_⟩
    show Function.update c.own.conns c.fd (some c.own.self) =
      Option.map Client.self ∘ Function.update s.conns c.fd (some _)
    rw [Function.comp_update, hconns]
    rfl

/-- The event `close` is the call, on a connection that is connected. -/
theorem Mirrors.close {s s' : DnsLoop} {c : TcpConn} (h : s.Mirrors c) {ctl : Bool}
    {o : Multiset Push} (hstep : DnsLoop.step s (.close c.fd ctl) = .ok (o, s'))
    (hstate : c.own.state = .connected) : s'.Mirrors (c.close ctl) := by
  obtain ⟨hloop, hconns⟩ := h
  rw [TcpConn.close, if_neg (not_not_intro hstate)]
  cases made_of_step hstep with
  | close =>
    refine ⟨congrArg (EventLoop.delIoEvent · ctl c.fd) hloop, ?_⟩
    show Function.update c.own.conns c.fd none =
      Option.map Client.self ∘ Function.update s.conns c.fd none
    rw [Function.comp_update, hconns]
    rfl

/-! ## What is sent is due, and nothing is left behind -/

/-- A key has two halves. -/
theorem eq_of_halves {key key' : UInt64} (hupper : toInt (key >>> 32) = toInt (key' >>> 32))
    (hlower : toInt key = toInt key') : key = key' := by
  have hu := congrArg Int32.toInt hupper
  have hl := congrArg Int32.toInt hlower
  have hlt := key.toNat_lt
  have hlt' := key'.toNat_lt
  have hshift : ∀ k : UInt64, (k >>> 32).toNat = k.toNat / 2 ^ 32 := fun k =>
    (UInt64.toNat_shiftRight k 32).trans (Nat.shiftRight_eq_div_pow _ _)
  rw [toInt_toInt, toInt_toInt, hshift, hshift, Int.bmod_def, Int.bmod_def] at hu
  rw [toInt_toInt, toInt_toInt, Int.bmod_def, Int.bmod_def] at hl
  refine UInt64.toNat_inj.mp ?_
  omega

/-- What is published is sent right if and only if the lost half of the keys does not show. -/
theorem Tracks.publish_due_iff {s : DnsLoop} (hs : s.Tracks) {mods : List UInt64}
    {route : Int32 → Int32 → Finset UInt64} :
    (∀ p ∈ (s.subscriptions.publish mods s.loop.listenFds route).1,
      Push.Due ⟨announce mods s.conns p.1, p.2⟩) ↔ s.Meets (.publish mods route) := by
  constructor
  · intro hdue mod hmod fd hfd client hclient key hkey hlower
    have hsub : fd ∈ s.subscriptions.subscribeMap.get (toInt mod) :=
      (hs.subscribed fd _).mpr ⟨client, hclient, key, hkey, hlower⟩
    obtain ⟨client', hannounce, key', hkey', -, hupper, hlower'⟩ :=
      hdue (fd, pushResponse route mod)
        (SubscribeList.mem_publish.mpr ⟨hfd, mod, rfl, Or.inr ⟨hmod, hsub⟩⟩)
    obtain ⟨client₀, hclient₀, rfl⟩ := announce_eq_some.mp hannounce
    obtain rfl : client = client₀ := Option.some.inj (hclient.symm.trans hclient₀)
    obtain rfl : mod = key' := eq_of_halves hupper hlower'
    exact hkey'
  · rintro hmeets ⟨fd, response⟩ hp
    obtain ⟨hfd, key, rfl, hkey⟩ := SubscribeList.mem_publish.mp hp
    obtain ⟨hmod, hsub⟩ : key ∈ mods ∧ fd ∈ s.subscriptions.subscribeMap.get (toInt key) := by
      rcases hkey with hold | hnew
      · rw [hs.online fd hfd] at hold
        exact absurd hold (Finset.notMem_empty key)
      · exact hnew
    obtain ⟨client, hclient, key', hkey', hlower⟩ := (hs.subscribed fd _).mp hsub
    exact ⟨_, announce_eq_some.mpr ⟨client, hclient, rfl⟩, key,
      hmeets key hmod fd hfd client hclient key' hkey' hlower,
      Finset.mem_union_right _ (List.mem_toFinset.mpr hmod), rfl, rfl⟩

/-- **The step**: an event is handled right if and only if it meets the condition. -/
theorem Tracks.right_iff {s : DnsLoop} (hs : s.Tracks) (e : LoopEvent) :
    (∀ o s', DnsLoop.step s e = .ok (o, s') → (∀ p ∈ o, p.Due) ∧ s'.Clean) ↔ s.Meets e := by
  cases e with
  | listenRead self fd keys ctl =>
    have hmeets : s.Meets (.listenRead self fd keys ctl) := trivial
    refine iff_of_true (fun o s' h => ?_) hmeets
    refine ⟨?_, (hs.step hmeets h).clean⟩
    cases made_of_step h with
    | listenRead => exact fun p hp => absurd hp (Multiset.notMem_zero p)
  | publish mods route =>
    rw [← hs.publish_due_iff]
    constructor
    · intro hright p hp
      exact (hright _ _ rfl).1 _ (Multiset.mem_map.mpr ⟨p, hp, rfl⟩)
    · rintro hdue o s' ⟨⟩
      refine ⟨fun p hp => ?_, (hs.publish mods route).clean⟩
      obtain ⟨q, hq, rfl⟩ := Multiset.mem_map.mp hp
      exact hdue q hq
  | close fd ctl =>
    constructor
    · intro hright client hclient
      have hstep : DnsLoop.step s (.close fd ctl) = .ok (0, { s with
          loop := s.loop.delIoEvent ctl fd, conns := Function.update s.conns fd none }) := by
        simp only [DnsLoop.step, hclient]
      obtain ⟨hnone, -⟩ := (hright _ _ hstep).2 fd (Function.update_self _ _ _)
      -- a key asked for is an entry left behind
      refine Finset.eq_empty_of_forall_notMem fun key hkey => hnone (toInt key) ?_
      exact (hs.subscribed fd _).mpr ⟨client, hclient, key, hkey, rfl⟩
    · intro hmeets o s' h
      refine ⟨?_, (hs.step hmeets h).clean⟩
      cases made_of_step h with
      | close => exact fun p hp => absurd hp (Multiset.notMem_zero p)

/-- **Pushes are due and connections leave nothing behind**, in every run of a loop's events, if and
only if all of them meet the condition. -/
theorem pushes_due_iff (loop : EventLoop ConnCallback) (es : List LoopEvent) :
    (∀ es' outs s, es' <+: es → run step (start loop) es' = .ok (outs, s) →
      (∀ o ∈ outs, ∀ p ∈ o, p.Due) ∧ s.Clean) ↔
    Along step Meets (start loop) es := by
  refine (prefixes_iff_along (P := Clean) (Q := fun o : Multiset Push => ∀ p ∈ o, p.Due)
    (tracks_start loop).clean).trans ?_
  constructor
  · intro hright
    refine hright.imp (P := Tracks) (fun s e hs he => ?_) (tracks_start loop)
    have hmeets : s.Meets e := (hs.right_iff e).mp he
    exact ⟨hmeets, fun _ _ h => hs.step hmeets h⟩
  · intro hmeets
    refine hmeets.imp (P := Tracks) (fun s e hs he => ?_) (tracks_start loop)
    exact ⟨(hs.right_iff e).mpr he, fun _ _ h => hs.step he h⟩

/-- A connection that has subscribed to command 2 of module 1 is closed, and the command changes.
The next connection on the descriptor subscribes to the same, and is sent the old change. -/
theorem not_pushes_due :
    ¬ ∀ (es : List LoopEvent) (outs : List (Multiset Push)) (s : DnsLoop),
      run step (start {}) es = .ok (outs, s) → (∀ o ∈ outs, ∀ p ∈ o, p.Due) ∧ s.Clean := by
  intro hall
  obtain ⟨hdue, -⟩ := hall
    [.listenRead 0 5 [0x100000002] true, .close 5 true,
      .publish [0x100000002] (fun _ _ => ∅), .listenRead 1 5 [0x100000002] true,
      .publish [] (fun _ _ => ∅)] _ _ rfl
  obtain ⟨client, hclient, key, -, hannounced, -⟩ :=
    hdue {⟨some ⟨1, {0x100000002}, ∅⟩, ⟨1, 2, 0⟩⟩} (by decide) _ (Multiset.mem_singleton_self _)
  cases hclient
  exact Finset.notMem_empty key hannounced

end DnsLoop

end Lars.Dns
