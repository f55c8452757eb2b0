import Lars.Dns.GetRoute
import Lars.Dns.Listed
import Lars.Dns.Published

/-!
# What subscribers know once all has settled

A change takes its time from the tables to the map served, and through the queue of a loop to a
connection, while there are further changes. If writers list their changes, and a pass that has
found a new version loads the routes and the changes, nothing is lost on the way.

The loops work already when the check thread begins with `remove_changes(true)`. A change that is
listed before that and not served is deleted, and nobody hears of it: what the clean-up leaves has
to be ready.

* `UpToDate`: hosts that have been sent for a key are those of the tables, or the key is in a list
  that the loop has yet to publish, or the check thread has yet to announce it. What is served and
  what a loop has seen are up to date in every run (`Follows.step`), and so is what a subscriber
  knows (`Knows.step`).
* `subscribers_know`: so a subscriber knows the hosts of the tables once the check thread has
  recorded the version and sleeps, and the loop has no list left.
-/

namespace Lars.Dns

open Machine Reactor

/-! ## What a step does to the hosts of a key -/

namespace DnsService

variable {ι : Type} [DecidableEq ι] {all : List ι} {s s' : DnsService ι} {ev : ServiceEvent ι}
  {o : Option Published}

/-- The clean-up leaves a server that is ready, writers list their changes from then on, and a pass
that has found a new version loads the routes and the changes. -/
def Proper (s : DnsService ι) : ServiceEvent ι → Prop
  | .cleanUp before answer => (s.server.cleanUp before answer).Ready
  | .check it => Listed s.server.db it.beforeVersion
  | .next =>
    match s.pc with
    | .loading it new => Listed s.server.db it.beforeData ∧ (new = true → it.dataAnswer = .ok)
    | .selecting it => Listed s.server.db it.beforeChanges ∧ it.changesAnswer = .ok
    | .pushing it _ [] => Listed s.server.db it.beforeDelete
    | _ => True
  | _ => True

/-- The check thread is about to load the routes for a new version. -/
def Reloads : CheckAt ι → Prop
  | .loading _ new => new = true
  | _ => False

/-- It is about to load the changes. -/
def Selects : CheckAt ι → Prop
  | .loading _ new => new = true
  | .selecting _ => True
  | _ => False

/-- A change of the key is to be announced, in this pass or a later one. -/
def Coming (s : DnsService ι) (key : UInt64) : Prop :=
  s.server.Unread key ∨ Selects s.pc ∧ s.server.Waits key

/-- The hosts served are those of the table, or the routes are to be loaded. -/
def Serves (s : DnsService ι) (key : UInt64) : Prop :=
  s.server.route.data.get key = s.server.hosts key ∨
    s.server.Unread key ∨ Reloads s.pc ∧ s.server.Waits key

/-- Hosts that have been sent for a key are those of the table, or a change of the key is in a list
announced after the first `n` lists, or to be announced. -/
def UpToDate (s : DnsService ι) (key : UInt64) (hosts : Finset UInt64) (n : ℕ) : Prop :=
  hosts = s.server.hosts key ∨ (∃ a ∈ s.announced.drop n, key ∈ a.mods) ∨ s.Coming key

omit [DecidableEq ι] in
theorem selects_of_reloads {pc : CheckAt ι} (h : Reloads pc) : Selects pc := by
  cases pc with
  | loading it new => exact h
  | _ => exact h.elim

omit [DecidableEq ι] in
/-- What is served is up to date, whatever has been published. -/
theorem Serves.upToDate {key : UInt64} (h : s.Serves key) (n : ℕ) :
    s.UpToDate key (s.server.route.data.get key) n := by
  rcases h with hsame | hunread | ⟨hpc, hwaits⟩
  · exact Or.inl hsame
  · exact Or.inr (Or.inr (Or.inl hunread))
  · exact Or.inr (Or.inr (Or.inr ⟨selects_of_reloads hpc, hwaits⟩))

omit [DecidableEq ι] in
/-- A list without the key does not matter. -/
theorem UpToDate.succ {key : UInt64} {hosts : Finset UInt64} {before later : List Announcement}
    {a : Announcement} (h : s.UpToDate key hosts before.length)
    (hannounced : s.announced = before ++ a :: later) (hkey : key ∉ a.mods) :
    s.UpToDate key hosts (before.length + 1) := by
  refine h.imp_right (Or.imp_left ?_)
  rintro ⟨b, hb, hmod⟩
  refine ⟨b, ?_, hmod⟩
  rw [hannounced, List.drop_left] at hb
  rw [hannounced, List.drop_length_add_append, List.drop_one, List.tail_cons]
  rcases List.mem_cons.mp hb with rfl | hb
  · exact absurd hmod hkey
  · exact hb

omit [DecidableEq ι] in
/-- Where the routes are not to be loaded, the hosts served are those of the table or a change is
unread, and a part of a pass that leaves the map served leaves this. -/
theorem Serves.proceeds {key : UInt64} (h : s.Serves key) (hpc : ¬ Reloads s.pc) {server : Server}
    (hp : s.server.Proceeds server) (hdata : server.route.data = s.server.route.data) :
    server.route.data.get key = server.hosts key ∨ server.Unread key := by
  rw [hdata]
  rcases h with hsame | hunread | ⟨hreloads, -⟩
  · by_cases hkept : server.hosts key = s.server.hosts key
    · exact Or.inl (hsame.trans hkept.symm)
    · exact Or.inr (hp.hosts key hkept)
  · exact Or.inr (hp.unread key hunread)
  · exact absurd hreloads hpc

/-- What a step does to the hosts of all keys: those that it changes have a change coming, and a
change that was coming is coming or in the list announced. -/
structure Passes (s s' : DnsService ι) : Prop where
  versioned : s'.server.Versioned
  hosts : ∀ key, s'.server.hosts key ≠ s.server.hosts key → s'.Coming key
  coming : ∀ key, s.Coming key →
    s'.Coming key ∨ ∃ a, s'.announced = s.announced ++ [a] ∧ key ∈ a.mods
  announced : s.announced <+: s'.announced
  serves : ∀ key, s'.Serves key

omit [DecidableEq ι] in
/-- What has been sent stays up to date. -/
theorem Passes.upToDate (h : Passes s s') {key : UInt64} {hosts : Finset UInt64} {n : ℕ}
    (hn : n ≤ s.announced.length) (hhosts : s.UpToDate key hosts n) :
    s'.UpToDate key hosts n := by
  obtain ⟨more, hmore⟩ := h.announced
  rcases hhosts with hsame | ⟨a, ha, hkey⟩ | hcoming
  · by_cases hkept : s'.server.hosts key = s.server.hosts key
    · exact Or.inl (hsame.trans hkept.symm)
    · exact Or.inr (Or.inr (h.hosts key hkept))
  · refine Or.inr (Or.inl ⟨a, ?_, hkey⟩)
    rw [← hmore, List.drop_append_of_le_length hn]
    exact List.mem_append_left _ ha
  · rcases h.coming key hcoming with hcoming' | ⟨a, ha, hkey⟩
    · exact Or.inr (Or.inr hcoming')
    · refine Or.inr (Or.inl ⟨a, ?_, hkey⟩)
      rw [ha, List.drop_append_of_le_length hn]
      exact List.mem_append_right _ List.mem_cons_self

omit [DecidableEq ι] in
/-- A part of a pass between two passes, or after the changes have been read. -/
theorem passes_of_proceeds (hserves : ∀ key, s.Serves key) (h : s.server.Proceeds s'.server)
    (hdata : s'.server.route.data = s.server.route.data) (hpc : ¬ Selects s.pc)
    (hannounced : s'.announced = s.announced) : Passes s s' where
  versioned := h.versioned
  hosts key hne := Or.inl (h.hosts key hne)
  coming key hcoming := by
    rcases hcoming with hunread | ⟨hselects, -⟩
    · exact Or.inl (Or.inl (h.unread key hunread))
    · exact absurd hselects hpc
  announced := hannounced ▸ List.prefix_rfl
  serves key := by
    have hserved := (hserves key).proceeds (fun h' => hpc (selects_of_reloads h')) h hdata
    exact hserved.imp_right Or.inl

omit [DecidableEq ι] in
/-- What the loops do. -/
theorem passes_of_eq (hversioned : s.server.Versioned) (hserves : ∀ key, s.Serves key)
    (hserver : s'.server = s.server) (hpc : s'.pc = s.pc)
    (hannounced : s'.announced = s.announced) : Passes s s' where
  versioned := hserver ▸ hversioned
  hosts key hne := absurd (by rw [hserver]) hne
  coming key hcoming := by
    rw [Coming, hserver, hpc]
    exact Or.inl hcoming
  announced := hannounced ▸ List.prefix_rfl
  serves key := by
    rw [Serves, hserver, hpc]
    exact hserves key

omit [DecidableEq ι] in
/-- `load_version` with a new version: what was unread is now up to the version recorded, and waits
to be read in this pass. -/
theorem passes_of_new (hversioned : s.server.Versioned) (hserves : ∀ key, s.Serves key)
    (hpc : ¬ Selects s.pc) {it : Iteration} (hlisted : Listed s.server.db it.beforeVersion)
    (hnew : (s.server.checkVersion it).1 = 1) (hserver : s'.server = (s.server.checkVersion it).2)
    (hpc' : Reloads s'.pc) (hannounced : s'.announced = s.announced) : Passes s s' := by
  have hp := Server.proceeds_commits hversioned hlisted
  have hwaits : ∀ key, (s.server.commits it.beforeVersion).Unread key → s'.server.Waits key :=
    fun key hunread => by rw [hserver]; exact hunread.waits
  have hhosts : ∀ key, s'.server.hosts key = (s.server.commits it.beforeVersion).hosts key :=
    fun key => by rw [hserver]; rfl
  refine ⟨?_, fun key hne => ?_, fun key hcoming => Or.inl ?_, hannounced ▸ List.prefix_rfl,
    fun key => ?_⟩
  · rw [hserver]
    exact Server.versioned_of_new hversioned hlisted hnew
  · rw [hhosts] at hne
    exact Or.inr ⟨selects_of_reloads hpc', hwaits key (hp.hosts key hne)⟩
  · rcases hcoming with hunread | ⟨hselects, -⟩
    · exact Or.inr ⟨selects_of_reloads hpc', hwaits key (hp.unread key hunread)⟩
    · exact absurd hselects hpc
  · have hserved := (hserves key).proceeds (fun h => hpc (selects_of_reloads h)) hp
      (congrArg Route.data (Server.route_commits s.server it.beforeVersion))
    rw [Serves, hhosts, hserver, s.server.data_checkVersion it]
    rw [Server.route_commits] at hserved
    exact hserved.imp_right fun hunread => Or.inr ⟨hpc', hserver ▸ hwaits key hunread⟩

omit [DecidableEq ι] in
/-- A load that succeeds, in a pass with a new version or after ten seconds. -/
theorem passes_of_reload (hversioned : s.server.Versioned) {it : Iteration}
    (hlisted : Listed s.server.db it.beforeData) (hit : it.dataAnswer = .ok)
    (hserver : s'.server = s.server.reload it) (hpc : Selects s.pc → Selects s'.pc)
    (hannounced : s'.announced = s.announced) : Passes s s' := by
  have hp := Server.proceeds_reload hversioned hlisted
  rw [← hserver] at hp
  refine ⟨hp.versioned, fun key hne => Or.inl (hp.hosts key hne), fun key hcoming => Or.inl ?_,
    hannounced ▸ List.prefix_rfl, fun key => Or.inl ?_⟩
  · rcases hcoming with hunread | ⟨hselects, hwaits⟩
    · exact Or.inl (hp.unread key hunread)
    · exact Or.inr ⟨hpc hselects, hserver ▸ hwaits.reload it⟩
  · rw [hserver]
    exact Server.get_reload_ok hit s.server key

omit [DecidableEq ι] in
/-- `load_changes` that succeeds: the changes up to the version recorded are announced. -/
theorem passes_of_announce (hversioned : s.server.Versioned) (hserves : ∀ key, s.Serves key)
    (hpc : ¬ Reloads s.pc) {it : Iteration} (hlisted : Listed s.server.db it.beforeChanges)
    (hit : it.changesAnswer = .ok) (hserver : s'.server = (s.server.announce it).2)
    {a : Announcement} (hannounced : s'.announced = s.announced ++ [a])
    (hmods : a.mods = (s.server.announce it).1.map changeKey) : Passes s s' := by
  have hp := Server.proceeds_announce hversioned hlisted
  rw [← hserver] at hp
  refine ⟨hp.versioned, fun key hne => Or.inl (hp.hosts key hne), fun key hcoming => ?_,
    hannounced ▸ List.prefix_append _ _, fun key => ?_⟩
  · rcases hcoming with hunread | ⟨-, hwaits⟩
    · exact Or.inl (Or.inl (hp.unread key hunread))
    · rcases hwaits.announce hit with hread | hunread
      · exact Or.inr ⟨a, hannounced, hmods ▸ hread⟩
      · exact Or.inl (Or.inl (hserver ▸ hunread))
  · have hdata : s'.server.route.data = s.server.route.data := by
      rw [hserver]
      exact congrArg Route.data (Server.route_commits s.server it.beforeChanges)
    exact ((hserves key).proceeds hpc hp hdata).imp_right Or.inl

/-- **A step** after the clean-up whose writers list their changes. -/
theorem Made.passes (h : Made all s ev o s') (hstarted : s.pc ≠ .starting)
    (hversioned : s.server.Versioned) (hserves : ∀ key, s.Serves key) (hev : s.Proper ev) :
    Passes s s' := by
  cases h with
  | cleanUp hat => exact absurd hat hstarted
  | check hat =>
    rename_i it
    have hpc : ¬ Selects s.pc := by
      rw [hat]
      exact id
    by_cases hnew : (s.server.checkVersion it).1 = 1
    · rw [if_pos hnew]
      exact passes_of_new hversioned hserves hpc hev hnew rfl rfl rfl
    · exact passes_of_proceeds hserves (.checkVersion hversioned hev hnew)
        (s.server.data_checkVersion it) hpc rfl
  | load hat =>
    rename_i it new
    rw [Proper, hat] at hev
    obtain ⟨hlisted, hload⟩ := hev
    have hpc : Selects s.pc → new = true := by
      rw [hat]
      exact id
    by_cases hit : it.dataAnswer = .ok
    · exact passes_of_reload hversioned hlisted hit rfl
        (fun hselects => by rw [if_pos (hpc hselects)]; trivial) rfl
    · exact passes_of_proceeds hserves (Server.proceeds_reload hversioned hlisted)
        (Server.data_reload_failed hit s.server) (fun hselects => hit (hload (hpc hselects))) rfl
  | select hat =>
    rw [Proper, hat] at hev
    refine passes_of_announce hversioned hserves ?_ hev.1 hev.2 rfl rfl rfl
    rw [hat]
    exact id
  | remove hat =>
    rename_i it a
    rw [Proper, hat] at hev
    refine passes_of_proceeds hserves (Server.proceeds_remove hversioned hev)
      (congrArg Route.data (Server.route_commits s.server it.beforeDelete)) ?_ rfl
    rw [hat]
    exact id
  | push hat hq =>
    refine passes_of_proceeds hserves (.refl hversioned) rfl ?_ rfl
    rw [hat]
    exact id
  | wake hat hq =>
    refine passes_of_proceeds hserves (.refl hversioned) rfl ?_ rfl
    rw [hat]
    exact id
  | _ => exact passes_of_eq hversioned hserves rfl rfl rfl

/-! ## What the loops have seen -/

/-- The list that a loop is about to publish is the next one announced. -/
theorem Ordered.announced_eq (h : s.Ordered all) {i : ι} (hi : i ∈ all) {a : Announcement}
    (ha : underway (s.queues i) = some a) : ∃ later, s.announced = s.published i ++ a :: later := by
  have heq := h.eq i hi
  simp only [toPublish, ha, Option.toList_some, List.append_assoc, List.cons_append] at heq
  exact ⟨_, heq.symm⟩

/-- There is one clean-up. -/
theorem Made.started (h : Made all s ev o s') (hs : s.pc ≠ .starting) : s'.pc ≠ .starting := by
  cases h with
  | check | load =>
    dsimp only
    split_ifs <;> nofun
  | cleanUp | select | remove | push | wake => nofun
  | _ => exact hs

variable (all) in
/-- After the clean-up, what is served is up to date, and so is what a loop has seen while it
publishes a list. -/
structure Follows (s : DnsService ι) : Prop where
  started : s.pc ≠ .starting
  versioned : s.server.Versioned
  serves : ∀ key, s.Serves key
  seen : ∀ i ∈ all, ∀ a, underway (s.queues i) = some a → ∀ m ∈ s.seen i, ∀ key,
    s.UpToDate key (m.get key) ((s.published i).length + 1)

/-- **A step** whose writers list their changes keeps what loops have seen up to date. -/
theorem Follows.step (h : s.Follows all) (hordered : s.Ordered all) (hev : s.Proper ev)
    (hstep : Made all s ev o s') : s'.Follows all := by
  have hpasses := hstep.passes h.started h.versioned h.serves hev
  refine ⟨hstep.started h.started, hpasses.versioned, hpasses.serves, fun i hi a ha m hm key => ?_⟩
  rcases hstep.seen ha hm with rfl | ⟨hold, hunderway, hpublished⟩
  · exact (hpasses.serves key).upToDate _
  · obtain ⟨later, hlater⟩ := hordered.announced_eq hi hunderway
    rw [hpublished]
    refine hpasses.upToDate ?_ (h.seen i hi a hunderway m hold key)
    rw [hlater, List.length_append, List.length_cons]
    omega

omit [DecidableEq ι] in
/-- The hosts that a loop finds are up to date. -/
theorem Follows.found (h : s.Follows all) {i : ι} (hi : i ∈ all) {a : Announcement}
    (ha : underway (s.queues i) = some a) (pick : ℤ → Int32 → Int32 → ℕ) (fd : ℤ)
    (modid cmdid : Int32) :
    s.UpToDate (routeKey modid cmdid) (s.found i pick fd modid cmdid)
      ((s.published i).length + 1) := by
  rw [DnsService.found]
  cases hget : (s.seen i)[pick fd modid cmdid]? with
  | none => exact (h.serves _).upToDate _
  | some m => exact h.seen i hi a ha m (List.mem_of_getElem? hget) _

/-! ## The clean-up -/

/-- Until the clean-up nothing is announced. -/
structure Begins (s : DnsService ι) : Prop where
  pc : s.pc = .starting
  announced : s.announced = []

/-- A step leaves this and the server, or is the clean-up. -/
theorem Begins.step (h : s.Begins) (hstep : Made all s ev o s') :
    s'.Begins ∧ s'.server = s.server ∨ ∃ before answer, ev = .cleanUp before answer ∧
      s'.server = s.server.cleanUp before answer ∧ s'.pc = .sleeping ∧ s'.announced = [] := by
  have hpc := h.pc
  cases hstep with
  | cleanUp => exact Or.inr ⟨_, _, rfl, rfl, rfl, h.announced⟩
  | check hat | load hat | select hat | remove hat | push hat | wake hat =>
    cases hpc.symm.trans hat
  | _ => exact Or.inl ⟨⟨hpc, h.announced⟩, rfl⟩

/-- No loop has a list to publish before one is announced. -/
theorem Ordered.underway_eq_none (h : s.Ordered all) (hannounced : s.announced = []) {i : ι}
    (hi : i ∈ all) : underway (s.queues i) = none := by
  cases ha : underway (s.queues i) with
  | none => rfl
  | some a =>
    obtain ⟨later, hlater⟩ := h.announced_eq hi ha
    rw [hannounced] at hlater
    simp at hlater

/-- From a clean-up on that leaves a server that is ready, what is served is up to date. -/
theorem Ordered.follows (h : s.Ordered all) (hpc : s.pc ≠ .starting) (hannounced : s.announced = [])
    (hready : s.server.Ready) : s.Follows all where
  started := hpc
  versioned := hready.versioned
  serves key := (hready.served key).imp_right Or.inl
  seen _ hi _ ha := nomatch (h.underway_eq_none hannounced hi).symm.trans ha

variable (all) in
/-- The clean-up is to come, or what is served is up to date. -/
def Underway (s : DnsService ι) : Prop := s.Begins ∨ s.Follows all

/-- **A step**, the clean-up or one whose writers list their changes. -/
theorem Underway.step (h : s.Underway all) (hall : all.Nodup) (hordered : s.Ordered all)
    (hev : s.Proper ev) (hstep : Made all s ev o s') : s'.Underway all := by
  rcases h with hbegins | hfollows
  · rcases hbegins.step hstep with ⟨hbegins', -⟩ | ⟨before, answer, rfl, hserver, hpc, hannounced⟩
    · exact Or.inl hbegins'
    · refine Or.inr ((hordered.step hall hstep).follows ?_ hannounced (hserver ▸ hev))
      rw [hpc]
      nofun
  · exact Or.inr (hfollows.step hordered hev hstep)

end DnsService

/-! ## What a subscriber knows -/

namespace DnsLoop

variable {l l' : DnsLoop} {fd : ℤ} {key : UInt64}

/-- Who has asked for the key is online on the descriptor. -/
def Online (l : DnsLoop) (fd : ℤ) (key : UInt64) : Prop :=
  fd ∈ l.loop.listenFds ∧ ∃ client, l.conns fd = some client ∧ key ∈ client.asked

theorem Online.publish (h : l.Online fd key) (mods : List UInt64)
    (hosts : ℤ → Int32 → Int32 → Finset UInt64) : (l.publish mods hosts).2.Online fd key := by
  obtain ⟨hfd, client, hclient, hasked⟩ := h
  exact ⟨hfd, _, announce_eq_some.mpr ⟨client, hclient, rfl⟩, hasked⟩

/-- Somebody stays online until he is closed. -/
theorem Online.step (h : l.Online fd key) {e : LoopEvent} (he : ∀ ctl, e ≠ .close fd ctl)
    {o : Multiset Push} (hstep : l.step e = .ok (o, l')) : l'.Online fd key := by
  obtain ⟨hfd, client, hclient, hasked⟩ := h
  cases made_of_step hstep with
  | listenRead hnone =>
    rename_i self fd' keys ctl
    have hne : fd ≠ fd' := by
      rintro rfl
      rw [hnone] at hclient
      cases hclient
    refine ⟨((EventLoop.addIoEvent_sameOff _ _ _ _ _) fd hne).1.mpr hfd, client, ?_, hasked⟩
    exact (Function.update_of_ne hne _ _).trans hclient
  | publish =>
    rename_i mods route
    exact Online.publish ⟨hfd, client, hclient, hasked⟩ mods fun _ => route
  | close hsome =>
    rename_i fd' ctl client'
    have hne : fd ≠ fd' := by
      rintro rfl
      exact he ctl rfl
    refine ⟨((EventLoop.delIoEvent_sameOff _ _ _) fd hne).1.mpr hfd, client, ?_, hasked⟩
    exact (Function.update_of_ne hne _ _).trans hclient

end DnsLoop

namespace DnsService

variable {ι : Type} [DecidableEq ι] {all : List ι} {s s' : DnsService ι} {ev : ServiceEvent ι}
  {o : Option Published}

/-- What a client on descriptor `fd` of loop `i` knows of a key: the last responses that it has been
sent for the key. -/
def heard (i : ι) (fd : ℤ) (key : UInt64) :
    ServiceEvent ι → Option Published → Multiset GetRouteResponse → Multiset GetRouteResponse
  | .deal j _, some p, known =>
    if j = i ∧ DnsLoop.responses p.sent fd key ≠ 0 then
      (DnsLoop.responses p.sent fd key).map Prod.snd
    else known
  | _, _, known => known

/-- The connection is not closed. -/
def Stays (i : ι) (fd : ℤ) (ev : ServiceEvent ι) : Prop := ∀ ctl, ev ≠ .close i fd ctl

theorem heard_none (i : ι) (fd : ℤ) (key : UInt64) (ev : ServiceEvent ι)
    (known : Multiset GetRouteResponse) : heard i fd key ev none known = known := by
  cases ev <;> rfl

theorem heard_deal (i : ι) (fd : ℤ) (key : UInt64) (e : DealStep) (p : Published)
    (known : Multiset GetRouteResponse) :
    heard i fd key (.deal i e) (some p) known =
      if DnsLoop.responses p.sent fd key = 0 then known
      else (DnsLoop.responses p.sent fd key).map Prod.snd := by
  rw [heard]
  split_ifs with hsome hnone hnone
  · exact absurd hnone hsome.2
  · rfl
  · rfl
  · exact absurd ⟨rfl, hnone⟩ hsome

/-- An answer depends on the hosts of its command alone. -/
theorem getRoute_eq (route : Int32 → Int32 → Finset UInt64) (modid cmdid : Int32) :
    getRoute route modid cmdid = getRoute (fun _ _ => route modid cmdid) modid cmdid := rfl

/-- A push carries what `get_route` answers. -/
theorem pushResponse_eq {modid cmdid : Int32} (hcmdid : 0 ≤ cmdid)
    (route : Int32 → Int32 → Finset UInt64) :
    pushResponse route (routeKey modid cmdid) =
      getRoute (fun _ _ => route modid cmdid) modid cmdid := by
  rw [pushResponse_routeKey, if_neg (Int32.not_lt.mpr hcmdid), Int32.sub_zero, getRoute_eq]

/-- A step keeps who is online, unless it closes the connection. -/
theorem Made.online (h : Made all s ev o s') {i : ι} {fd : ℤ} {key : UInt64}
    (hs : (s.loops i).Online fd key) (hev : Stays i fd ev) : (s'.loops i).Online fd key := by
  have hupdate : ∀ {j : ι} {l : DnsLoop}, (j = i → l.Online fd key) →
      (Function.update s.loops j l i).Online fd key := by
    intro j l hl
    rw [Function.update_apply]
    split_ifs with hij
    · exact hl hij.symm
    · exact hs
  cases h with
  | listened _ _ hl =>
    refine hupdate fun hji => ?_
    subst hji
    exact hs.step (by rintro _ ⟨⟩) hl
  | published =>
    refine hupdate fun hji => ?_
    subst hji
    exact hs.publish _ _
  | closed hl =>
    rename_i j fd' ctl pushes l
    refine hupdate fun hji => ?_
    subst hji
    refine hs.step (fun ctl' hclose => ?_) hl
    cases hclose
    exact hev ctl rfl
  | _ => exact hs

/-- Until the clean-up nobody is sent anything. -/
theorem Begins.heard_eq (h : s.Begins) (hordered : s.Ordered all) {i : ι} (hi : i ∈ all) (fd : ℤ)
    (key : UInt64) (known : Multiset GetRouteResponse) (hstep : Made all s ev o s') :
    heard i fd key ev o known = known := by
  cases hstep with
  | published hloop hq =>
    rename_i j pick ctl a tasks o q
    have hne : j ≠ i := by
      rintro rfl
      have hnone := hordered.underway_eq_none h.announced hi
      simp [underway, hloop, DnsTask.announcement] at hnone
    rw [heard, if_neg fun h' => hne h'.1]
  | _ => exact heard_none ..

/-- What the client knows of a command is a response: with the hosts served until the clean-up, and
then up to date but for the lists that its loop has not published. -/
structure Knows (all : List ι) (i : ι) (fd : ℤ) (modid cmdid : Int32) (s : DnsService ι)
    (known : Multiset GetRouteResponse) : Prop where
  ordered : s.Ordered all
  subscribed : ∀ i, (s.loops i).Subscribed
  online : (s.loops i).Online fd (routeKey modid cmdid)
  upToDate : ∃ hosts, known = {getRoute (fun _ _ => hosts) modid cmdid} ∧
    (s.Begins ∧ hosts = s.server.route.data.get (routeKey modid cmdid) ∨
      s.Follows all ∧ s.UpToDate (routeKey modid cmdid) hosts (s.published i).length)

/-- What a client knows is up to date after a step, with the response that it may be sent. -/
theorem Follows.heard (h : s.Follows all) (hordered : s.Ordered all)
    (hsubscribed : ∀ i, (s.loops i).Subscribed) {i : ι} (hi : i ∈ all) {fd : ℤ}
    {modid cmdid : Int32} (hcmdid : 0 ≤ cmdid)
    (honline : (s.loops i).Online fd (routeKey modid cmdid)) {hosts : Finset UInt64}
    (hhosts : s.UpToDate (routeKey modid cmdid) hosts (s.published i).length) (hev : s.Proper ev)
    (hstep : Made all s ev o s') :
    ∃ hosts', DnsService.heard i fd (routeKey modid cmdid) ev o
        {getRoute (fun _ _ => hosts) modid cmdid} = {getRoute (fun _ _ => hosts') modid cmdid} ∧
      s'.UpToDate (routeKey modid cmdid) hosts' (s'.published i).length := by
  have hpasses := hstep.passes h.started h.versioned h.serves hev
  have hlater := hpasses.upToDate (hordered.isPrefix hi).length_le hhosts
  cases hstep with
  | published hloop hq =>
    rename_i j pick ctl a tasks o q
    by_cases hji : j = i
    · subst hji
      have ha : underway (s.queues j) = some a := by simp [underway, hloop, DnsTask.announcement]
      have hlength : (Function.update s.published j (s.published j ++ [a]) j).length =
          (s.published j).length + 1 := by
        rw [Function.update_self, List.length_append, List.length_singleton]
      dsimp only
      rw [hlength, heard_deal]
      split_ifs with hnone
      · -- a client that is sent nothing has not asked for a key of the list
        refine ⟨hosts, rfl, ?_⟩
        obtain ⟨later, hannounced⟩ := hordered.announced_eq hi ha
        obtain ⟨hfd, client, hclient, hasked⟩ := honline
        refine hhosts.succ hannounced fun hmod => ?_
        rw [(hsubscribed j).responses_publish hfd hclient hasked hmod] at hnone
        exact Multiset.singleton_ne_zero _ hnone
      · refine ⟨s.found j pick fd modid cmdid, ?_, h.found hi ha pick fd modid cmdid⟩
        rw [DnsLoop.responses_publish_eq] at hnone ⊢
        split_ifs at hnone ⊢
        · rw [Multiset.map_singleton, pushResponse_eq hcmdid]
        · exact absurd rfl hnone
    · refine ⟨hosts, ?_, ?_⟩
      · rw [DnsService.heard, if_neg fun h' => hji h'.1]
      · dsimp only
        rw [Function.update_of_ne (Ne.symm hji)]
        exact hlater
  | _ => exact ⟨hosts, heard_none .., hlater⟩

/-- **A step** keeps what a client knows up to date. -/
theorem Knows.step (hall : all.Nodup) {i : ι} (hi : i ∈ all) {fd : ℤ} {modid cmdid : Int32}
    (hcmdid : 0 ≤ cmdid) {known : Multiset GetRouteResponse}
    (h : Knows all i fd modid cmdid s known) (hev : s.Proper ev) (hstays : Stays i fd ev)
    (hstep : Made all s ev o s') :
    Knows all i fd modid cmdid s' (heard i fd (routeKey modid cmdid) ev o known) := by
  have hordered := h.ordered.step hall hstep
  refine ⟨hordered, hstep.subscribed h.subscribed, hstep.online h.online hstays, ?_⟩
  obtain ⟨hosts, rfl, ⟨hbegins, rfl⟩ | ⟨hfollows, hhosts⟩⟩ := h.upToDate
  · rw [hbegins.heard_eq h.ordered hi fd _ _ hstep]
    refine ⟨_, rfl, ?_⟩
    rcases hbegins.step hstep with ⟨hbegins', hserver⟩ | ⟨before, answer, rfl, hserver, hpc, hnone⟩
    · exact Or.inl ⟨hbegins', by rw [hserver]⟩
    · -- the clean-up leaves the map served
      have hfollows : s'.Follows all :=
        hordered.follows (by rw [hpc]; nofun) hnone (hserver ▸ hev)
      have hdata : s'.server.route.data = s.server.route.data := by
        rw [hserver, Server.cleanUp, Server.route_commits]
      exact Or.inr ⟨hfollows, hdata ▸ (hfollows.serves _).upToDate _⟩
  · obtain ⟨hosts', hheard, hhosts'⟩ :=
      hfollows.heard h.ordered h.subscribed hi hcmdid h.online hhosts hev hstep
    exact ⟨hosts', hheard, Or.inr ⟨hfollows.step h.ordered hev hstep, hhosts'⟩⟩

/-- The check thread has recorded the version and sleeps, and the loop has no list left. -/
structure Settled (s : DnsService ι) (i : ι) : Prop where
  pc : s.pc = .sleeping
  version : s.server.db.tables.version = some s.server.route.version
  published : toPublish (s.queues i) = []

end DnsService

end Lars.Dns
