import Lars.Dns.CheckRouteChanges
import Lars.Dns.LoopPushes
import Lars.Reactor.TaskQueue

/-!
# The threads of the DNS server

One thread runs `route::check_route_changes`, which first removes all changes; the constructor of
`route` starts it, and nothing makes the loops wait for it. When it has found a new version and
loaded the routes, `tcp_server::send_task` adds a task that publishes the changes to the queue of
one loop after the other. The loops run their tasks, and open and close connections, meanwhile; a
task that publishes asks for the hosts of each response anew.

A step is one of any of these threads. The check thread makes its queries and adds its tasks one by
one, and the loops take the tasks from their queues as in `TaskQueue`.

* `run_pass`: left alone, the check thread makes the pass `Server.check`, and adds the list that it
  hands to `send_task` to every queue.
* `Ordered.run`: each loop publishes the lists announced, each once and in order.
-/

namespace Lars.Dns

open Machine Reactor

/-- A list handed to `send_task`, with the version recorded when it was read. -/
structure Announcement where
  mods : List UInt64
  version : ℤ
  deriving DecidableEq

/-- A task of a loop. -/
inductive DnsTask
  /-- `tcp_conn::listen_read`, whose callback subscribes to `keys`. -/
  | listenRead (self : ℕ) (fd : ℤ) (keys : List UInt64)
  /-- `subscribe_list::publish`. -/
  | publish (a : Announcement)
  deriving DecidableEq

/-- What a task publishes. -/
def DnsTask.announcement : DnsTask → Option Announcement
  | listenRead _ _ _ => none
  | publish a => some a

/-- The threads that add tasks to the queues. -/
inductive DnsThread
  | check
  | accept
  deriving DecidableEq

/-- Where the check thread is. -/
inductive CheckAt (ι : Type)
  /-- Before `remove_changes(true)`. -/
  | starting
  | sleeping
  /-- About to load the routes, for a new version or after ten seconds. -/
  | loading (it : Iteration) (new : Bool)
  /-- About to load the changes. -/
  | selecting (it : Iteration)
  /-- In `send_task`, with these loops left; then about to remove the changes. -/
  | pushing (it : Iteration) (a : Announcement) (left : List ι)
  /-- In the `add` of the queue of loop `i`, between the push and the write. -/
  | waking (it : Iteration) (a : Announcement) (i : ι) (left : List ι)

/-- The DNS server. For the statements only there are the lists announced, those that each loop has
published, and the maps that have been served since a loop has begun its task. -/
structure DnsService (ι : Type) where
  server : Server
  pc : CheckAt ι
  loops : ι → DnsLoop
  queues : ι → TaskQueue DnsThread DnsTask
  announced : List Announcement
  published : ι → List Announcement
  seen : ι → List RouteMap

/-- A step of `deal_task`. At the end of a task, `pick` says for each response in which of the maps
served meanwhile its hosts were found, and `ctl` is the answer of `epoll_ctl`. -/
inductive DealStep
  | read
  | swap
  | call
  | finish (pick : ℤ → Int32 → Int32 → ℕ) (ctl : Bool)
  | done

/-- What happens in the server. -/
inductive ServiceEvent (ι : Type)
  /-- The check thread begins with `remove_changes(true)`. -/
  | cleanUp (before : List Transaction) (answer : QueryAnswer)
  /-- A pass of the check thread begins with `load_version`. -/
  | check (it : Iteration)
  /-- The check thread goes on. -/
  | next
  /-- The push for a connection accepted. -/
  | accept (i : ι) (self : ℕ) (fd : ℤ) (keys : List UInt64)
  /-- The write for it. -/
  | wake (i : ι)
  | deal (i : ι) (e : DealStep)
  /-- A connection is closed in the callback of an event. -/
  | close (i : ι) (fd : ℤ) (ctl : Bool)

/-- A list that a loop has published, with the responses sent. -/
structure Published where
  announcement : Announcement
  sent : Sent

/-- `subscribe_list::publish` on a loop, where each response has hosts of its own. -/
def DnsLoop.publish (mods : List UInt64) (hosts : ℤ → Int32 → Int32 → Finset UInt64)
    (l : DnsLoop) : Sent × DnsLoop :=
  let (needPublish, subscriptions) :=
    (mods.foldl SubscribeList.markChange l.subscriptions).makePublishMap l.loop.listenFds
  (needPublish.pairs.map fun p => (p.1, pushResponse (hosts p.1) p.2),
    { l with conns := DnsLoop.announce mods l.conns, subscriptions := subscriptions })

namespace DnsService

variable {ι : Type} [DecidableEq ι] (all : List ι)

/-- The server once the constructor of `route` has left it, with the loops empty. -/
def start (server : Server) (registries : ι → EventLoop ConnCallback) : DnsService ι where
  server := server
  pc := .starting
  loops i := .start (registries i)
  queues _ := {}
  announced := []
  published _ := []
  seen _ := []

/-- A step on the queue of a loop. -/
def onQueue (s : DnsService ι) (i : ι) (e : TaskStep DnsThread DnsTask) :
    Except Disabled (DnsService ι) := do
  let (_, q) ← (s.queues i).step e
  .ok { s with queues := Function.update s.queues i q }

/-- The check thread goes on; `all` are the loops in the order of `send_task`. -/
def next (s : DnsService ι) : Except Disabled (DnsService ι) :=
  match s.pc with
  | .starting | .sleeping => .error .disabled
  | .loading it new =>
    let server := s.server.reload it
    .ok { s with
      server := server
      pc := if new then .selecting it else .sleeping
      seen := fun i => s.seen i ++ [server.route.data] }
  | .selecting it =>
    let (read, server) := s.server.announce it
    let a := ⟨read.map changeKey, server.route.version⟩
    .ok { s with server := server, pc := .pushing it a all, announced := s.announced ++ [a] }
  | .pushing it _ [] => .ok { s with server := (s.server.remove it).2, pc := .sleeping }
  | .pushing it a (i :: left) => do
    let s ← s.onQueue i (.push (some .check) (.publish a))
    .ok { s with pc := .waking it a i left }
  | .waking it a i left => do
    let s ← s.onQueue i (.write (some .check))
    .ok { s with pc := .pushing it a left }

/-- The hosts that a task finds in the maps served while it runs. -/
def found (s : DnsService ι) (i : ι) (pick : ℤ → Int32 → Int32 → ℕ) (fd : ℤ)
    (modid cmdid : Int32) : Finset UInt64 :=
  ((s.seen i)[pick fd modid cmdid]?.getD s.server.route.data).get (routeKey modid cmdid)

/-- A loop comes to the end of a task. -/
def endTask (s : DnsService ι) (i : ι) (pick : ℤ → Int32 → Int32 → ℕ) (ctl : Bool) :
    DnsTask → Except Disabled (Option Published × DnsService ι)
  | .listenRead self fd keys => do
    let (_, l) ← (s.loops i).step (.listenRead self fd keys ctl)
    .ok (none, { s with loops := Function.update s.loops i l })
  | .publish a =>
    let (sent, l) := (s.loops i).publish a.mods (s.found i pick)
    .ok (some ⟨a, sent⟩, { s with
      loops := Function.update s.loops i l
      published := Function.update s.published i (s.published i ++ [a]) })

/-- A step of `deal_task` on a loop. -/
def deal (s : DnsService ι) (i : ι) :
    DealStep → Except Disabled (Option Published × DnsService ι)
  | .read => do
    let s ← s.onQueue i .read
    .ok (none, s)
  | .swap => do
    let s ← s.onQueue i .swap
    .ok (none, s)
  | .call => do
    let s ← s.onQueue i .call
    .ok (none, { s with seen := Function.update s.seen i [s.server.route.data] })
  | .finish pick ctl =>
    match (s.queues i).loop with
    | .running task _ => do
      let s ← s.onQueue i .finish
      s.endTask i pick ctl task
    | _ => .error .disabled
  | .done => do
    let s ← s.onQueue i .done
    .ok (none, s)

/-- A step, with the list published if it is the end of its task. -/
def step (s : DnsService ι) :
    ServiceEvent ι → Except Disabled (Option Published × DnsService ι)
  | .cleanUp before answer =>
    match s.pc with
    | .starting =>
      .ok (none, { s with server := s.server.cleanUp before answer, pc := .sleeping })
    | _ => .error .disabled
  | .check it =>
    match s.pc with
    | .sleeping =>
      let (ret, server) := s.server.checkVersion it
      .ok (none, { s with
        server := server
        pc :=
          if ret = 1 then .loading it true
          else if it.currentTime - server.lastLoadTime ≥ 10 then .loading it false
          else .sleeping })
    | _ => .error .disabled
  | .next => do
    let s ← s.next all
    .ok (none, s)
  | .accept i self fd keys => do
    let s ← s.onQueue i (.push (some .accept) (.listenRead self fd keys))
    .ok (none, s)
  | .wake i => do
    let s ← s.onQueue i (.write (some .accept))
    .ok (none, s)
  | .deal i e => s.deal i e
  | .close i fd ctl =>
    match (s.queues i).loop with
    | .waiting => do
      let (_, l) ← (s.loops i).step (.close fd ctl)
      .ok (none, { s with loops := Function.update s.loops i l })
    | _ => .error .disabled

/-! ## What a step does -/

/-- A step on a queue that neither adds a list nor begins or ends a task. -/
def Plain : TaskStep DnsThread DnsTask → Prop
  | .push _ (.publish _) => False
  | .call => False
  | .finish => False
  | _ => True

/-- What a step does. -/
inductive Made (s : DnsService ι) : ServiceEvent ι → Option Published → DnsService ι → Prop
  | cleanUp {before : List Transaction} {answer : QueryAnswer} (h : s.pc = .starting) :
    Made s (.cleanUp before answer) none { s with
      server := s.server.cleanUp before answer
      pc := .sleeping }
  | check {it : Iteration} (h : s.pc = .sleeping) :
    Made s (.check it) none { s with
      server := (s.server.checkVersion it).2
      pc :=
        if (s.server.checkVersion it).1 = 1 then .loading it true
        else if it.currentTime - (s.server.checkVersion it).2.lastLoadTime ≥ 10 then
          .loading it false
        else .sleeping }
  | load {it : Iteration} {new : Bool} (h : s.pc = .loading it new) :
    Made s .next none { s with
      server := s.server.reload it
      pc := if new then .selecting it else .sleeping
      seen := fun i => s.seen i ++ [(s.server.reload it).route.data] }
  | select {it : Iteration} (h : s.pc = .selecting it) :
    Made s .next none { s with
      server := (s.server.announce it).2
      pc := .pushing it ⟨(s.server.announce it).1.map changeKey,
        (s.server.announce it).2.route.version⟩ all
      announced := s.announced ++ [⟨(s.server.announce it).1.map changeKey,
        (s.server.announce it).2.route.version⟩] }
  | remove {it : Iteration} {a : Announcement} (h : s.pc = .pushing it a []) :
    Made s .next none { s with server := (s.server.remove it).2, pc := .sleeping }
  | push {it : Iteration} {a : Announcement} {i : ι} {left : List ι} {o : Option DnsTask}
      {q : TaskQueue DnsThread DnsTask} (h : s.pc = .pushing it a (i :: left))
      (hq : TaskQueue.Made (s.queues i) (.push (some .check) (.publish a)) o q) :
    Made s .next none { s with
      queues := Function.update s.queues i q
      pc := .waking it a i left }
  | wake {it : Iteration} {a : Announcement} {i : ι} {left : List ι} {o : Option DnsTask}
      {q : TaskQueue DnsThread DnsTask} (h : s.pc = .waking it a i left)
      (hq : TaskQueue.Made (s.queues i) (.write (some .check)) o q) :
    Made s .next none { s with
      queues := Function.update s.queues i q
      pc := .pushing it a left }
  | plain {ev : ServiceEvent ι} {i : ι} {e : TaskStep DnsThread DnsTask} {o : Option DnsTask}
      {q : TaskQueue DnsThread DnsTask} (he : Plain e) (hq : TaskQueue.Made (s.queues i) e o q) :
    Made s ev none { s with queues := Function.update s.queues i q }
  | call {i : ι} {o : Option DnsTask} {q : TaskQueue DnsThread DnsTask}
      (hq : TaskQueue.Made (s.queues i) .call o q) :
    Made s (.deal i .call) none { s with
      queues := Function.update s.queues i q
      seen := Function.update s.seen i [s.server.route.data] }
  | listened {i : ι} {pick : ℤ → Int32 → Int32 → ℕ} {ctl : Bool} {self : ℕ} {fd : ℤ}
      {keys : List UInt64} {tasks : List DnsTask} {o : Option DnsTask}
      {q : TaskQueue DnsThread DnsTask} {pushes : Multiset Push} {l : DnsLoop}
      (hloop : (s.queues i).loop = .running (.listenRead self fd keys) tasks)
      (hq : TaskQueue.Made (s.queues i) .finish o q)
      (hl : (s.loops i).step (.listenRead self fd keys ctl) = .ok (pushes, l)) :
    Made s (.deal i (.finish pick ctl)) none { s with
      queues := Function.update s.queues i q
      loops := Function.update s.loops i l }
  | published {i : ι} {pick : ℤ → Int32 → Int32 → ℕ} {ctl : Bool} {a : Announcement}
      {tasks : List DnsTask} {o : Option DnsTask} {q : TaskQueue DnsThread DnsTask}
      (hloop : (s.queues i).loop = .running (.publish a) tasks)
      (hq : TaskQueue.Made (s.queues i) .finish o q) :
    Made s (.deal i (.finish pick ctl))
      (some ⟨a, ((s.loops i).publish a.mods (s.found i pick)).1⟩) { s with
        queues := Function.update s.queues i q
        loops := Function.update s.loops i ((s.loops i).publish a.mods (s.found i pick)).2
        published := Function.update s.published i (s.published i ++ [a]) }
  | closed {i : ι} {fd : ℤ} {ctl : Bool} {pushes : Multiset Push} {l : DnsLoop}
      (hl : (s.loops i).step (.close fd ctl) = .ok (pushes, l)) :
    Made s (.close i fd ctl) none { s with loops := Function.update s.loops i l }

theorem onQueue_eq_ok {s s' : DnsService ι} {i : ι} {e : TaskStep DnsThread DnsTask}
    (h : s.onQueue i e = .ok s') :
    ∃ o q, TaskQueue.Made (s.queues i) e o q ∧
      s' = { s with queues := Function.update s.queues i q } := by
  obtain ⟨⟨o, q⟩, hstep, h⟩ := bind_eq_ok.mp h
  cases h
  exact ⟨o, q, TaskQueue.made_of_step hstep, rfl⟩

theorem made_of_next {s s' : DnsService ι} (h : s.next all = .ok s') :
    Made all s .next none s' := by
  unfold next at h
  split at h
  · cases h
  · cases h
  · next hpc =>
    cases h
    exact .load hpc
  · next hpc =>
    cases h
    exact .select hpc
  · next hpc =>
    cases h
    exact .remove hpc
  · next hpc =>
    obtain ⟨s₁, hqueue, h⟩ := bind_eq_ok.mp h
    obtain ⟨o, q, hq, rfl⟩ := onQueue_eq_ok hqueue
    cases h
    exact .push hpc hq
  · next hpc =>
    obtain ⟨s₁, hqueue, h⟩ := bind_eq_ok.mp h
    obtain ⟨o, q, hq, rfl⟩ := onQueue_eq_ok hqueue
    cases h
    exact .wake hpc hq

theorem made_of_onQueue {s s' : DnsService ι} {i : ι} {e : TaskStep DnsThread DnsTask}
    {ev : ServiceEvent ι} {o : Option Published}
    (h : (s.onQueue i e >>= fun s => .ok (none, s)) = Except.ok (o, s')) (he : Plain e) :
    Made all s ev o s' := by
  obtain ⟨s₁, hqueue, h⟩ := bind_eq_ok.mp h
  obtain ⟨o', q, hq, rfl⟩ := onQueue_eq_ok hqueue
  cases h
  exact .plain he hq

theorem made_of_step {s s' : DnsService ι} {ev : ServiceEvent ι} {o : Option Published}
    (h : step all s ev = .ok (o, s')) : Made all s ev o s' := by
  cases ev with
  | cleanUp before answer =>
    simp only [step] at h
    split at h
    · next hpc =>
      cases h
      exact .cleanUp hpc
    · cases h
  | check it =>
    simp only [step] at h
    split at h
    · next hpc =>
      cases h
      exact .check hpc
    · cases h
  | next =>
    obtain ⟨s₁, hnext, h⟩ := bind_eq_ok.mp h
    cases h
    exact made_of_next all hnext
  | accept i self fd keys => exact made_of_onQueue all h trivial
  | wake i => exact made_of_onQueue all h trivial
  | deal i e =>
    cases e with
    | read => exact made_of_onQueue all h trivial
    | swap => exact made_of_onQueue all h trivial
    | call =>
      obtain ⟨s₁, hqueue, h⟩ := bind_eq_ok.mp h
      obtain ⟨o, q, hq, rfl⟩ := onQueue_eq_ok hqueue
      cases h
      exact .call hq
    | finish pick ctl =>
      simp only [step, deal] at h
      split at h
      · next task tasks hloop =>
        obtain ⟨s₁, hqueue, h⟩ := bind_eq_ok.mp h
        obtain ⟨o', q, hq, rfl⟩ := onQueue_eq_ok hqueue
        cases task with
        | listenRead self fd keys =>
          obtain ⟨⟨pushes, l⟩, hl, h⟩ := bind_eq_ok.mp h
          cases h
          exact .listened hloop hq hl
        | publish a =>
          cases h
          exact .published hloop hq
      · cases h
    | done => exact made_of_onQueue all h trivial
  | close i fd ctl =>
    simp only [step] at h
    split at h
    · obtain ⟨⟨pushes, l⟩, hl, h⟩ := bind_eq_ok.mp h
      cases h
      exact .closed hl
    · cases h

/-! ## Lists under way -/

/-- The list that a loop is about to publish in the task it is in. -/
def underway (q : TaskQueue DnsThread DnsTask) : Option Announcement :=
  match q.loop with
  | .running task _ => task.announcement
  | _ => none

/-- The lists that a loop has got and not published. -/
def toPublish (q : TaskQueue DnsThread DnsTask) : List Announcement :=
  (underway q).toList ++ q.backlog.filterMap DnsTask.announcement

section Queue

variable {q q' : TaskQueue DnsThread DnsTask} {o : Option DnsTask}

theorem plain_spec {e : TaskStep DnsThread DnsTask} (h : TaskQueue.Made q e o q') (he : Plain e) :
    underway q' = underway q ∧ toPublish q' = toPublish q := by
  cases h with
  | push =>
    rename_i thread task
    cases task with
    | listenRead self fd keys =>
      refine ⟨rfl, ?_⟩
      simp [toPublish, underway, TaskQueue.backlog, TaskQueue.batch, DnsTask.announcement]
    | publish a => exact he.elim
  | write => exact ⟨rfl, rfl⟩
  | read h => simp [toPublish, underway, TaskQueue.backlog, TaskQueue.batch, h]
  | swap h => simp [toPublish, underway, TaskQueue.backlog, TaskQueue.batch, h]
  | call h => exact he.elim
  | finish h => exact he.elim
  | done h => simp [toPublish, underway, TaskQueue.backlog, TaskQueue.batch, h]

theorem push_spec {thread : Option DnsThread} {a : Announcement}
    (h : TaskQueue.Made q (.push thread (.publish a)) o q') :
    underway q' = underway q ∧ toPublish q' = toPublish q ++ [a] := by
  cases h with
  | push =>
    refine ⟨rfl, ?_⟩
    simp [toPublish, underway, TaskQueue.backlog, TaskQueue.batch, DnsTask.announcement]

theorem call_spec (h : TaskQueue.Made q .call o q') : toPublish q' = toPublish q := by
  cases h with
  | call h =>
    rename_i task tasks
    cases htask : task.announcement <;>
      simp [toPublish, underway, TaskQueue.backlog, TaskQueue.batch, h, htask]

theorem finish_spec (h : TaskQueue.Made q .finish o q') {task : DnsTask} {tasks : List DnsTask}
    (hloop : q.loop = .running task tasks) :
    underway q' = none ∧ toPublish q = task.announcement.toList ++ toPublish q' := by
  cases h with
  | finish h =>
    rw [h] at hloop
    cases hloop
    simp [toPublish, underway, TaskQueue.backlog, TaskQueue.batch, h]

end Queue

/-- The list that the check thread has yet to add to the queue of loop `i`. -/
def due (i : ι) : CheckAt ι → List Announcement
  | .pushing _ a left => if i ∈ left then [a] else []
  | .waking _ a _ left => if i ∈ left then [a] else []
  | _ => []

/-- The loops left are the last of all. -/
def Last : CheckAt ι → Prop
  | .pushing _ _ left => left <:+ all
  | .waking _ _ i left => i :: left <:+ all
  | _ => True

/-- Each loop has published, is about to publish, or will get the lists announced, each once and in
order. -/
structure Ordered (s : DnsService ι) : Prop where
  eq : ∀ i ∈ all, s.published i ++ toPublish (s.queues i) ++ due i s.pc = s.announced
  last : Last all s.pc

variable {all}

/-- What the check thread does between two lists. -/
theorem Ordered.between {s s' : DnsService ι} (h : s.Ordered all)
    (hpublished : s'.published = s.published) (hqueues : s'.queues = s.queues)
    (hannounced : s'.announced = s.announced) (hdue : ∀ i, due i s'.pc = due i s.pc)
    (hlast : Last all s'.pc) : s'.Ordered all where
  eq i hi := by
    rw [hpublished, hqueues, hannounced, hdue i, ← h.eq i hi]
  last := hlast

/-- What a loop does with its own lists. -/
theorem Ordered.loop {s s' : DnsService ι} (h : s.Ordered all) {j : ι} (hpc : s'.pc = s.pc)
    (hannounced : s'.announced = s.announced)
    (hother : ∀ i, i ≠ j → s'.published i = s.published i ∧ s'.queues i = s.queues i)
    (hj : s'.published j ++ toPublish (s'.queues j) = s.published j ++ toPublish (s.queues j)) :
    s'.Ordered all where
  eq i hi := by
    rw [hannounced, hpc, ← h.eq i hi]
    by_cases hij : i = j
    · rw [hij, hj]
    · rw [(hother i hij).1, (hother i hij).2]
  last := hpc ▸ h.last

/-- **A step** keeps the lists in order. -/
theorem Ordered.step (hall : all.Nodup) {s s' : DnsService ι} {ev : ServiceEvent ι}
    {o : Option Published} (h : s.Ordered all) (hstep : Made all s ev o s') : s'.Ordered all := by
  have heq := h.eq
  have hlast := h.last
  cases hstep with
  | cleanUp hpc => exact h.between rfl rfl rfl (fun i => by rw [hpc]; rfl) trivial
  | check hpc =>
    refine h.between rfl rfl rfl (fun i => ?_) ?_
    · rw [hpc]
      dsimp only
      split_ifs <;> rfl
    · dsimp only
      split_ifs <;> trivial
  | load hpc =>
    refine h.between rfl rfl rfl (fun i => ?_) ?_
    · rw [hpc]
      dsimp only
      split_ifs <;> rfl
    · dsimp only
      split_ifs <;> trivial
  | select hpc =>
    rw [hpc] at heq
    refine ⟨fun i hi => ?_, List.suffix_rfl⟩
    rw [← heq i hi]
    simp [due, hi]
  | remove hpc => exact h.between rfl rfl rfl (fun i => by rw [hpc]; rfl) trivial
  | push hpc hq =>
    rename_i it a j left o q
    rw [hpc] at heq hlast
    have hlast : j :: left <:+ all := hlast
    refine ⟨fun i hi => ?_, hlast⟩
    rw [← heq i hi]
    by_cases hij : i = j
    · -- the list is no longer due to the loop, but in its queue
      subst hij
      have hnot : i ∉ left := (List.nodup_cons.mp (hlast.sublist.nodup hall)).1
      simp [due, hnot, (push_spec hq).2]
    · simp [due, hij]
  | wake hpc hq =>
    rename_i it a j left o q
    rw [hpc] at heq hlast
    have hlast : j :: left <:+ all := hlast
    refine ⟨fun i hi => ?_, (List.suffix_cons j left).trans hlast⟩
    rw [← heq i hi]
    by_cases hij : i = j
    · subst hij
      simp [due, (plain_spec hq trivial).2]
    · simp [due, Function.update_of_ne hij]
  | plain he hq =>
    refine h.loop rfl rfl (fun i hi => ⟨rfl, Function.update_of_ne hi _ _⟩) ?_
    simp [(plain_spec hq he).2]
  | call hq =>
    refine h.loop rfl rfl (fun i hi => ⟨rfl, Function.update_of_ne hi _ _⟩) ?_
    simp [call_spec hq]
  | listened hloop hq hl =>
    refine h.loop rfl rfl (fun i hi => ⟨rfl, Function.update_of_ne hi _ _⟩) ?_
    simp [(finish_spec hq hloop).2, DnsTask.announcement]
  | published hloop hq =>
    refine h.loop rfl rfl
      (fun i hi => ⟨Function.update_of_ne hi _ _, Function.update_of_ne hi _ _⟩) ?_
    simp [(finish_spec hq hloop).2, DnsTask.announcement]
  | closed hl => exact ⟨heq, hlast⟩

/-- **Each loop publishes the lists announced**, each once and in order, in every run. -/
theorem Ordered.run (hall : all.Nodup) {s s' : DnsService ι} {es : List (ServiceEvent ι)}
    {outs : List (Option Published)} (h : s.Ordered all)
    (hrun : Machine.run (DnsService.step all) s es = .ok (outs, s')) : s'.Ordered all :=
  run_invariant (P := Ordered all) (fun _ _ _ _ hs hstep => hs.step hall (made_of_step all hstep)) h
    hrun

/-- What a loop has published are the first of the lists announced. -/
theorem Ordered.isPrefix {s : DnsService ι} (h : s.Ordered all) {i : ι} (hi : i ∈ all) :
    s.published i <+: s.announced := by
  rw [← h.eq i hi, List.append_assoc]
  exact List.prefix_append _ _

variable (all) in
/-- Left alone in `send_task`, the check thread comes to its end and removes the changes. -/
theorem run_send {it : Iteration} {a : Announcement} {left : List ι} {s : DnsService ι}
    (hpc : s.pc = .pushing it a left) (hleft : left.Nodup)
    (hadding : ∀ i ∈ left, some .check ∉ (s.queues i).adding) :
    ∃ es outs s', (∀ e ∈ es, e = .next) ∧ Machine.run (step all) s es = .ok (outs, s') ∧
      s'.pc = .sleeping ∧ s'.server = (s.server.remove it).2 ∧ s'.announced = s.announced := by
  induction left generalizing s with
  | nil =>
    have hstep : step all s .next =
        .ok (none, { s with server := (s.server.remove it).2, pc := .sleeping }) := by
      simp only [step, next, hpc, ok_bind]
    exact ⟨[.next], [none], _, by simp, run_cons_eq_ok.mpr ⟨_, _, _, hstep, rfl, rfl⟩, rfl, rfl,
      rfl⟩
  | cons i left ih =>
    obtain ⟨hnot, hnodup⟩ := List.nodup_cons.mp hleft
    have hfree := hadding i List.mem_cons_self
    let q₁ : TaskQueue DnsThread DnsTask :=
      { s.queues i with
        queue := (s.queues i).queue ++ [.publish a]
        adding := insert (some .check) (s.queues i).adding }
    let q₂ : TaskQueue DnsThread DnsTask :=
      { s.queues i with
        queue := (s.queues i).queue ++ [.publish a]
        counter := (s.queues i).counter + 1 }
    have hpush : (s.queues i).step (.push (some .check) (.publish a)) = .ok (none, q₁) :=
      if_pos ⟨rfl, hfree⟩
    have hwrite : q₁.step (.write (some .check)) = .ok (none, q₂) := by
      rw [TaskQueue.step, if_pos (Finset.mem_insert_self _ _), Finset.erase_insert hfree]
    have hs₁ : step all s .next = .ok (none, { s with
        queues := Function.update s.queues i q₁
        pc := .waking it a i left }) := by
      simp only [step, next, onQueue, hpc, hpush, ok_bind]
    have hs₂ : step all { s with
        queues := Function.update s.queues i q₁
        pc := .waking it a i left } .next = .ok (none, { s with
        queues := Function.update s.queues i q₂
        pc := .pushing it a left }) := by
      simp only [step, next, onQueue, Function.update_self, hwrite, ok_bind, Function.update_idem]
    obtain ⟨es, outs, s', hes, hrun, hend⟩ := ih (s := { s with
        queues := Function.update s.queues i q₂
        pc := .pushing it a left }) rfl hnodup fun j hj => by
      have hne : j ≠ i := fun h => hnot (h ▸ hj)
      simpa only [Function.update_of_ne hne] using hadding j (List.mem_cons_of_mem _ hj)
    refine ⟨.next :: .next :: es, none :: none :: outs, s', by simpa using hes, ?_, hend⟩
    exact run_cons_eq_ok.mpr ⟨_, _, _, hs₁, run_cons_eq_ok.mpr ⟨_, _, _, hs₂, hrun, rfl⟩, rfl⟩

theorem step_load {it : Iteration} {new : Bool} {s : DnsService ι} (hpc : s.pc = .loading it new) :
    step all s .next = .ok (none, { s with
      server := s.server.reload it
      pc := if new then .selecting it else .sleeping
      seen := fun i => s.seen i ++ [(s.server.reload it).route.data] }) := by
  simp only [step, next, hpc, ok_bind]

theorem step_select {it : Iteration} {s : DnsService ι} (hpc : s.pc = .selecting it) :
    step all s .next = .ok (none, { s with
      server := (s.server.announce it).2
      pc := .pushing it ⟨(s.server.announce it).1.map changeKey,
        (s.server.announce it).2.route.version⟩ all
      announced := s.announced ++ [⟨(s.server.announce it).1.map changeKey,
        (s.server.announce it).2.route.version⟩] }) := by
  simp only [step, next, hpc, ok_bind]

/-- **Left alone, the check thread makes a pass of `check_route_changes`**, and announces the list
that the pass hands to `send_task`. -/
theorem run_pass (hall : all.Nodup) {s : DnsService ι} (hpc : s.pc = .sleeping)
    (hadding : ∀ i, some .check ∉ (s.queues i).adding) (it : Iteration) :
    ∃ es outs s', (∀ e ∈ es, e = .check it ∨ e = .next) ∧
      Machine.run (step all) s es = .ok (outs, s') ∧ s'.pc = .sleeping ∧
      s'.server = (s.server.check it).2 ∧
      s'.announced.map Announcement.mods =
        s.announced.map Announcement.mods ++ (s.server.check it).1.published.toList := by
  have hcheck : step all s (.check it) = .ok (none, { s with
      server := (s.server.checkVersion it).2
      pc :=
        if (s.server.checkVersion it).1 = 1 then .loading it true
        else if it.currentTime - (s.server.checkVersion it).2.lastLoadTime ≥ 10 then
          .loading it false
        else .sleeping }) := by
    simp only [step, hpc]
  by_cases hnew : (s.server.checkVersion it).1 = 1
  · rw [if_pos hnew] at hcheck
    obtain ⟨es, outs, s', hes, hrun, hpc', hserver, hannounced⟩ := run_send all
      (s := { s with
        server := ((s.server.checkVersion it).2.reload it).announce it |>.2
        pc := .pushing it _ all
        announced := s.announced ++ [_]
        seen := fun i => s.seen i ++ [_] }) rfl hall fun i _ => hadding i
    refine ⟨.check it :: .next :: .next :: es, none :: none :: none :: outs, s', ?_, ?_, hpc', ?_,
      ?_⟩
    · simpa using fun e he => Or.inr (hes e he)
    · exact run_cons_eq_ok.mpr ⟨_, _, _, hcheck, run_cons_eq_ok.mpr ⟨_, _, _, step_load rfl,
        run_cons_eq_ok.mpr ⟨_, _, _, step_select rfl, hrun, rfl⟩, rfl⟩, rfl⟩
    · rw [hserver, Server.check_of_new hnew]
    · rw [hannounced, Server.check_of_new hnew]
      simp
  · rw [if_neg hnew] at hcheck
    by_cases htime : it.currentTime - (s.server.checkVersion it).2.lastLoadTime ≥ 10
    · have hpass : s.server.check it = ({}, (s.server.checkVersion it).2.reload it) := by
        unfold Server.check
        dsimp only
        rw [if_neg hnew, if_pos htime]
      rw [if_pos htime] at hcheck
      rw [hpass]
      refine ⟨[.check it, .next], [none, none], _, by simp, run_cons_eq_ok.mpr ⟨_, _, _, hcheck,
        run_cons_eq_ok.mpr ⟨_, _, _, step_load rfl, rfl, rfl⟩, rfl⟩, rfl, rfl, ?_⟩
      exact (List.append_nil _).symm
    · have hpass : s.server.check it = ({}, (s.server.checkVersion it).2) := by
        unfold Server.check
        dsimp only
        rw [if_neg hnew, if_neg htime]
      rw [if_neg htime] at hcheck
      rw [hpass]
      refine ⟨[.check it], [none], _, by simp, run_cons_eq_ok.mpr ⟨_, _, _, hcheck, rfl, rfl⟩, rfl,
        rfl, ?_⟩
      exact (List.append_nil _).symm

end DnsService

end Lars.Dns
