import Lars.Dns.Key
import Lars.Foundations.Run
import Lars.Foundations.SetMap

/-!
# Subscriptions

`subscribe_list` (`lars_dns/src/subscribe.cc`) is what a DNS loop knows of its agents: which
descriptors have subscribed to which keys, and which keys wait to be sent to which descriptor. A key
is a module's id and a command's id in one 64-bit number. Both members are local to the loop's
thread, where all calls are made.

`subscribe_map` is declared with keys of type `int`, so that a key loses its upper half, the
module's id, on the way in. The descriptors in its sets are `uint64_t` and converted back; that
loses nothing.

`route` is `route::get_hosts`, the hosts of a module's id and a command's id.
-/

namespace Lars.Dns

open Machine

/-- `lars::HostInfo`. -/
structure HostInfo where
  ip : Int32
  port : Int32
  deriving DecidableEq

/-- `lars::GetRouteResponse`; the order of its hosts is that of a hash set. -/
structure GetRouteResponse where
  modid : Int32
  cmdid : Int32
  host : Multiset HostInfo
  deriving DecidableEq

/-- `subscribe_map`: the descriptors under the `int` a key is converted to. -/
abbrev SubscribeMap := SetMap Int32 ℤ

/-- `publish_map`: the keys of a descriptor. -/
abbrev PublishMap := SetMap ℤ UInt64

/-- `host_info` with the parts of a host set. -/
def hostInfo (host : UInt64) : HostInfo := ⟨toInt (host >>> 32), toInt host⟩

/-- The `GetRouteResponse` that `push_change_task` builds for a key. -/
def pushResponse (route : Int32 → Int32 → Finset UInt64) (modcmd : UInt64) : GetRouteResponse :=
  let modid := toInt (modcmd >>> 32)
  let cmdid := toInt modcmd
  ⟨modid, cmdid, (route modid cmdid).val.map hostInfo⟩

/-- `subscribe_list`. -/
structure SubscribeList where
  subscribeMap : SubscribeMap := ∅
  publishMap : PublishMap := ∅

/-- A call on `subscribe_list`; a `publish` finds the loop's descriptors and the routes. -/
inductive SubscribeCall
  | subscribe (fd : ℤ) (mod : UInt64)
  | unsubscribe (fd : ℤ) (mod : UInt64)
  | publish (changeMods : List UInt64) (onlineFds : Finset ℤ)
      (route : Int32 → Int32 → Finset UInt64)

/-- The responses sent, each with the descriptor it is sent to. -/
abbrev Sent := Multiset (ℤ × GetRouteResponse)

namespace SubscribeList

/-- `subscribe_list::subscribe`. -/
def subscribe (fd : ℤ) (mod : UInt64) (s : SubscribeList) : SubscribeList :=
  { s with subscribeMap := s.subscribeMap.emplace (toInt mod) fd }

/-- `subscribe_list::unsubscribe`. -/
def unsubscribe (fd : ℤ) (mod : UInt64) (s : SubscribeList) : SubscribeList :=
  { s with subscribeMap := s.subscribeMap.remove (toInt mod) fd }

/-- `subscribe_list::make_publish_map`: what the descriptors online have to be sent is taken out. -/
def makePublishMap (onlineFds : Finset ℤ) (s : SubscribeList) : PublishMap × SubscribeList :=
  let (publishMap, needPublish) := s.publishMap.extract onlineFds
  (needPublish, { s with publishMap := publishMap })

/-- `subscribe_list::push_change_task`, every `send` succeeding. -/
def pushChangeTask (onlineFds : Finset ℤ) (route : Int32 → Int32 → Finset UInt64)
    (s : SubscribeList) : Sent × SubscribeList :=
  let (needPublish, s) := makePublishMap onlineFds s
  (needPublish.pairs.map fun p => (p.1, pushResponse route p.2), s)

/-- A change marked for the descriptors subscribed: the body of the loop of `publish`. -/
def markChange (s : SubscribeList) (mod : UInt64) : SubscribeList :=
  match s.subscribeMap.lookup (toInt mod) with
  | none => s
  | some fds => { s with publishMap := s.publishMap.emplaceAt fds mod }

/-- `subscribe_list::publish`. -/
def publish (changeMods : List UInt64) (onlineFds : Finset ℤ)
    (route : Int32 → Int32 → Finset UInt64) (s : SubscribeList) : Sent × SubscribeList :=
  pushChangeTask onlineFds route (changeMods.foldl markChange s)

/-- The calls as a machine that shows what is sent; it never stops. -/
def step (s : SubscribeList) : SubscribeCall → Except Empty (Sent × SubscribeList)
  | .subscribe fd mod => .ok (0, s.subscribe fd mod)
  | .unsubscribe fd mod => .ok (0, s.unsubscribe fd mod)
  | .publish changeMods onlineFds route => .ok (s.publish changeMods onlineFds route)

end SubscribeList

/-! ## What subscriptions are for -/

/-- Subscriptions in the abstract: who has subscribed to what, and what waits to be sent to whom. -/
structure Subscriptions where
  subscribed : Finset (ℤ × UInt64) := ∅
  pending : Finset (ℤ × UInt64) := ∅

namespace Subscriptions

/-- What is pending once the changes are published. -/
def mark (changeMods : List UInt64) (a : Subscriptions) : Finset (ℤ × UInt64) :=
  a.pending ∪ a.subscribed.filter fun p => p.2 ∈ changeMods

/-- The calls in the abstract: a publication makes the changed keys pending for their subscribers,
and sends each descriptor online one response for each key that is pending for it. -/
def step (a : Subscriptions) : SubscribeCall → Except Empty (Sent × Subscriptions)
  | .subscribe fd mod => .ok (0, { a with subscribed := insert (fd, mod) a.subscribed })
  | .unsubscribe fd mod => .ok (0, { a with subscribed := a.subscribed.erase (fd, mod) })
  | .publish changeMods onlineFds route =>
    .ok (((a.mark changeMods).filter fun p => p.1 ∈ onlineFds).val.map fun p =>
        (p.1, pushResponse route p.2),
      { a with pending := (a.mark changeMods).filter fun p => p.1 ∉ onlineFds })

/-- A call that the lost half of the keys does not show in. Whoever has subscribed to a key with the
lower half of a changed key has the changed key pending, or has subscribed to it; and whoever
unsubscribes from a key is left without a subscription to a key with that lower half. -/
def Distinguished (a : Subscriptions) : SubscribeCall → Prop
  | .subscribe _ _ => True
  | .unsubscribe fd mod =>
    ∀ mod', (fd, mod') ∈ a.subscribed → toInt mod' = toInt mod → mod' = mod
  | .publish changeMods _ _ =>
    ∀ mod ∈ changeMods, ∀ fd mod', (fd, mod') ∈ a.subscribed → toInt mod' = toInt mod →
      (fd, mod) ∈ a.subscribed ∪ a.pending

end Subscriptions

/-! ## The code against the abstract machine -/

namespace SubscribeList

@[simp] theorem subscribeMap_foldl_markChange (mods : List UInt64) (s : SubscribeList) :
    (mods.foldl markChange s).subscribeMap = s.subscribeMap := by
  induction mods generalizing s with
  | nil => rfl
  | cons mod mods ih =>
    rw [List.foldl_cons, ih]
    unfold markChange
    split <;> rfl

theorem mem_markChange {s : SubscribeList} {mod mod' : UInt64} {fd : ℤ} :
    mod' ∈ (s.markChange mod).publishMap.get fd ↔
      mod' ∈ s.publishMap.get fd ∨ mod' = mod ∧ fd ∈ s.subscribeMap.get (toInt mod) := by
  unfold markChange
  split
  · rename_i h
    simp [SetMap.get, h]
  · rename_i fds h
    rw [SetMap.mem_get_emplaceAt, SetMap.get_of_lookup h]
    tauto

/-- A key waits for a descriptor after the loop of `publish` if it did before, or if it has changed
and the descriptor is found under what is left of it. -/
theorem mem_foldl_markChange {mods : List UInt64} {s : SubscribeList} {mod : UInt64} {fd : ℤ} :
    mod ∈ (mods.foldl markChange s).publishMap.get fd ↔
      mod ∈ s.publishMap.get fd ∨ mod ∈ mods ∧ fd ∈ s.subscribeMap.get (toInt mod) := by
  induction mods generalizing s with
  | nil => simp
  | cons mod₁ mods ih =>
    have hmap : (s.markChange mod₁).subscribeMap = s.subscribeMap :=
      subscribeMap_foldl_markChange [mod₁] s
    rw [List.foldl_cons, ih, mem_markChange, hmap, List.mem_cons]
    constructor
    · rintro ((h | ⟨rfl, h⟩) | ⟨h, h'⟩)
      · exact Or.inl h
      · exact Or.inr ⟨Or.inl rfl, h⟩
      · exact Or.inr ⟨Or.inr h, h'⟩
    · rintro (h | ⟨rfl | h, h'⟩)
      · exact Or.inl (Or.inl h)
      · exact Or.inl (Or.inr ⟨rfl, h'⟩)
      · exact Or.inr ⟨h, h'⟩

/-! ## What the calls do to the maps -/

theorem mem_subscribeMap_foldl_subscribe {keys : List UInt64} {s : SubscribeList} {fd fd' : ℤ}
    {i : Int32} :
    fd' ∈ (keys.foldl (fun s key => subscribe fd key s) s).subscribeMap.get i ↔
      fd' ∈ s.subscribeMap.get i ∨ fd' = fd ∧ ∃ key ∈ keys, toInt key = i := by
  induction keys generalizing s with
  | nil => simp
  | cons key keys ih =>
    rw [List.foldl_cons, ih, subscribe, SetMap.mem_get_emplace, List.exists_mem_cons_iff]
    constructor
    · rintro ((⟨rfl, rfl⟩ | h) | ⟨rfl, h⟩)
      · exact Or.inr ⟨rfl, Or.inl rfl⟩
      · exact Or.inl h
      · exact Or.inr ⟨rfl, Or.inr h⟩
    · rintro (h | ⟨rfl, rfl | h⟩)
      · exact Or.inl (Or.inr h)
      · exact Or.inl (Or.inl ⟨rfl, rfl⟩)
      · exact Or.inr ⟨rfl, h⟩

theorem publishMap_foldl_subscribe (keys : List UInt64) (fd : ℤ) (s : SubscribeList) :
    (keys.foldl (fun s key => subscribe fd key s) s).publishMap = s.publishMap := by
  induction keys generalizing s with
  | nil => rfl
  | cons key keys ih => exact ih _

section Publish

variable {mods : List UInt64} {onlineFds : Finset ℤ} {route : Int32 → Int32 → Finset UInt64}
  {s : SubscribeList}

theorem subscribeMap_publish :
    (s.publish mods onlineFds route).2.subscribeMap = s.subscribeMap :=
  subscribeMap_foldl_markChange mods s

variable (route) in
/-- What waits after `publish`: what waited before or has changed, for those who are not online. -/
theorem mem_publishMap_publish {fd : ℤ} {mod : UInt64} :
    mod ∈ (s.publish mods onlineFds route).2.publishMap.get fd ↔
      fd ∉ onlineFds ∧
        (mod ∈ s.publishMap.get fd ∨ mod ∈ mods ∧ fd ∈ s.subscribeMap.get (toInt mod)) := by
  rw [publish, pushChangeTask, makePublishMap, SetMap.get_extract_fst, ← mem_foldl_markChange]
  split_ifs with h <;> simp [h]

/-- What `publish` sends: what waited before or has changed, to those who are online. -/
theorem mem_publish {fd : ℤ} {response : GetRouteResponse} :
    (fd, response) ∈ (s.publish mods onlineFds route).1 ↔
      fd ∈ onlineFds ∧ ∃ mod, response = pushResponse route mod ∧
        (mod ∈ s.publishMap.get fd ∨ mod ∈ mods ∧ fd ∈ s.subscribeMap.get (toInt mod)) := by
  have hpairs : ∀ fd mod,
      (fd, mod) ∈ (SetMap.extract (mods.foldl markChange s).publishMap onlineFds).2.pairs ↔
        fd ∈ onlineFds ∧
          (mod ∈ s.publishMap.get fd ∨ mod ∈ mods ∧ fd ∈ s.subscribeMap.get (toInt mod)) := by
    intro fd mod
    rw [SetMap.mem_pairs, SetMap.get_extract_snd, ← mem_foldl_markChange]
    split_ifs with h <;> simp [h]
  rw [publish, pushChangeTask, makePublishMap, Multiset.mem_map]
  constructor
  · rintro ⟨⟨fd', mod⟩, hmem, heq⟩
    cases heq
    obtain ⟨hfd, hmod⟩ := (hpairs fd' mod).mp hmem
    exact ⟨hfd, mod, rfl, hmod⟩
  · rintro ⟨hfd, mod, rfl, hmod⟩
    exact ⟨(fd, mod), (hpairs fd mod).mpr ⟨hfd, hmod⟩, rfl⟩

end Publish

/-! ## The code and the abstract machine -/

/-- The maps are those of the abstract subscriptions, but for the lost half of the keys. -/
structure Agrees (s : SubscribeList) (a : Subscriptions) : Prop where
  subscribed : ∀ fd i, fd ∈ s.subscribeMap.get i ↔ ∃ mod, toInt mod = i ∧ (fd, mod) ∈ a.subscribed
  pending : ∀ fd mod, mod ∈ s.publishMap.get fd ↔ (fd, mod) ∈ a.pending

theorem agrees_start : Agrees {} {} where
  subscribed fd i := by
    change fd ∈ SetMap.get ∅ i ↔ ∃ mod, toInt mod = i ∧ (fd, mod) ∈ (∅ : Finset (ℤ × UInt64))
    simp
  pending fd mod := by
    change mod ∈ SetMap.get ∅ fd ↔ (fd, mod) ∈ (∅ : Finset (ℤ × UInt64))
    simp

theorem Agrees.subscribe {s : SubscribeList} {a : Subscriptions} (h : Agrees s a) (fd : ℤ)
    (mod : UInt64) :
    Agrees (s.subscribe fd mod) { a with subscribed := insert (fd, mod) a.subscribed } where
  subscribed fd' i := by
    rw [SubscribeList.subscribe, SetMap.mem_get_emplace, h.subscribed]
    constructor
    · rintro (⟨rfl, rfl⟩ | ⟨mod', rfl, hm⟩)
      · exact ⟨mod, rfl, Finset.mem_insert_self _ _⟩
      · exact ⟨mod', rfl, Finset.mem_insert_of_mem hm⟩
    · rintro ⟨mod', rfl, hm⟩
      rcases Finset.mem_insert.mp hm with hm | hm
      · cases hm
        exact Or.inl ⟨rfl, rfl⟩
      · exact Or.inr ⟨mod', rfl, hm⟩
  pending := h.pending

theorem Agrees.unsubscribe {s : SubscribeList} {a : Subscriptions} (h : Agrees s a) {fd : ℤ}
    {mod : UInt64} (hmod : a.Distinguished (.unsubscribe fd mod)) :
    Agrees (s.unsubscribe fd mod) { a with subscribed := a.subscribed.erase (fd, mod) } where
  subscribed fd' i := by
    rw [SubscribeList.unsubscribe, SetMap.mem_get_remove, h.subscribed]
    constructor
    · rintro ⟨⟨mod', rfl, hm⟩, hne⟩
      refine ⟨mod', rfl, Finset.mem_erase.mpr ⟨?_, hm⟩⟩
      rintro ⟨⟩
      exact hne ⟨rfl, rfl⟩
    · rintro ⟨mod', rfl, hm⟩
      obtain ⟨hne, hm⟩ := Finset.mem_erase.mp hm
      refine ⟨⟨mod', rfl, hm⟩, ?_⟩
      rintro ⟨hi, hfd⟩
      cases hfd
      rw [hmod mod' hm hi] at hne
      exact hne rfl
  pending := h.pending

/-- What the loop of `publish` leaves waiting is what is pending. -/
theorem Agrees.mark {s : SubscribeList} {a : Subscriptions} (h : Agrees s a) {mods : List UInt64}
    {onlineFds : Finset ℤ} {route : Int32 → Int32 → Finset UInt64}
    (hmods : a.Distinguished (.publish mods onlineFds route)) (fd : ℤ) (mod : UInt64) :
    mod ∈ (mods.foldl markChange s).publishMap.get fd ↔ (fd, mod) ∈ a.mark mods := by
  rw [mem_foldl_markChange, h.pending, h.subscribed, Subscriptions.mark, Finset.mem_union,
    Finset.mem_filter]
  constructor
  · rintro (hp | ⟨hm, mod', hi, hs⟩)
    · exact Or.inl hp
    · rcases Finset.mem_union.mp (hmods mod hm fd mod' hs hi) with hs' | hp
      · exact Or.inr ⟨hs', hm⟩
      · exact Or.inl hp
  · rintro (hp | ⟨hs, hm⟩)
    · exact Or.inl hp
    · exact Or.inr ⟨hm, mod, rfl, hs⟩

/-- **A call** that the lost half of the keys does not show in sends what is to be sent. -/
theorem Agrees.step {s : SubscribeList} {a : Subscriptions} (h : Agrees s a) {c : SubscribeCall}
    (hc : a.Distinguished c) :
    ∃ o s' a', SubscribeList.step s c = .ok (o, s') ∧ Subscriptions.step a c = .ok (o, a') ∧
      Agrees s' a' := by
  cases c with
  | subscribe fd mod => exact ⟨0, _, _, rfl, rfl, h.subscribe fd mod⟩
  | unsubscribe fd mod => exact ⟨0, _, _, rfl, rfl, h.unsubscribe hc⟩
  | publish mods onlineFds route =>
    have hmark := h.mark hc
    have hsent : (SetMap.extract (mods.foldl markChange s).publishMap onlineFds).2.pairs =
        ((a.mark mods).filter fun p => p.1 ∈ onlineFds).val := by
      refine SetMap.pairs_eq_of_mem_iff fun fd mod => ?_
      rw [SetMap.get_extract_snd, Finset.mem_filter, ← hmark]
      split_ifs with hfd <;> simp [hfd]
    refine ⟨_, (s.publish mods onlineFds route).2,
      { a with pending := (a.mark mods).filter fun p => p.1 ∉ onlineFds }, rfl, ?_, ?_⟩
    · rw [Subscriptions.step, ← hsent]
      rfl
    · refine ⟨fun fd i => ?_, fun fd mod => ?_⟩
      · rw [← h.subscribed, ← subscribeMap_foldl_markChange mods s]
        exact Iff.rfl
      · rw [publish, pushChangeTask, makePublishMap, SetMap.get_extract_fst, Finset.mem_filter,
          ← hmark]
        split_ifs with hfd <;> simp [hfd]

/-- **Subscriptions are exact** in every run of calls that the lost half of the keys does not show
in: what is sent, and what is left to be sent, is what it should be. -/
theorem sent_exact_of_run {cs : List SubscribeCall}
    (hcs : Along Subscriptions.step Subscriptions.Distinguished {} cs) :
    ∃ outs s a, run SubscribeList.step {} cs = .ok (outs, s) ∧
      run Subscriptions.step {} cs = .ok (outs, a) ∧ Agrees s a := by
  refine run_simulation ?_ agrees_start hcs
  intro s a c h hc
  exact h.step hc

/-- A key published while its subscriber is offline, and sent after he has unsubscribed. -/
theorem sent_exact_of_run_offline :
    ∃ outs s a, run SubscribeList.step {}
        [.subscribe 5 0x100000001, .publish [0x100000001] ∅ (fun _ _ => ∅),
          .unsubscribe 5 0x100000001, .publish [] {5} (fun _ _ => ∅)] = .ok (outs, s) ∧
      run Subscriptions.step {}
        [.subscribe 5 0x100000001, .publish [0x100000001] ∅ (fun _ _ => ∅),
          .unsubscribe 5 0x100000001, .publish [] {5} (fun _ _ => ∅)] = .ok (outs, a) ∧
      Agrees s a := by
  refine sent_exact_of_run (along_cons trivial (along_cons ?_ (along_cons ?_ (along_cons ?_
    (along_nil _ _)))))
  · intro mod hmod fd mod' hs _
    have hs : (fd, mod') ∈ ({(5, 0x100000001)} : Finset (ℤ × UInt64)) := hs
    obtain ⟨rfl, -⟩ : fd = 5 ∧ mod' = 0x100000001 := by simpa using hs
    obtain rfl : mod = 0x100000001 := by simpa using hmod
    exact Finset.mem_union_left _ (by decide)
  · intro mod' hs _
    have hs : ((5 : ℤ), mod') ∈ ({(5, 0x100000001)} : Finset (ℤ × UInt64)) := hs
    simpa using hs
  · intro mod hmod
    cases hmod

/-- Modules 1 and 2 have a command 1. Who has subscribed to it in the one is sent the other. -/
theorem not_sent_exact_of_run :
    ¬ ∀ cs : List SubscribeCall, ∃ outs s a, run SubscribeList.step {} cs = .ok (outs, s) ∧
      run Subscriptions.step {} cs = .ok (outs, a) := by
  intro hall
  obtain ⟨outs, s, a, hrun, hrun'⟩ := hall
    [.subscribe 5 0x100000001, .publish [0x200000001] {5} fun _ _ => ∅]
  have hsent : outs = [0, {(5, ⟨2, 1, 0⟩)}] := by
    cases hrun
    rfl
  have hdue : outs = [0, 0] := by
    cases hrun'
    rfl
  rw [hdue] at hsent
  simp at hsent

end SubscribeList

end Lars.Dns
