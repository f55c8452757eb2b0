import Lars.Agent.LoadBalance
import Lars.Dns.Key

/-!
# The table of routes

A `route_lb` (`lars_agent/src/route_lb.cc`) has a `load_balance` for each module and command that
has been asked for or reported. It is created and its hosts are asked for (`pull`) when the pair is
first looked up, and deleted when there are no hosts for the pair.

In every run, each pair has an entry of its own, constructed for the pair, that has been pulled
once; calls for other pairs leave it alone, and no assertion fails (`run_consistent`). Nothing fills
the host map of an entry, so no host is ever chosen.
-/

namespace Lars.Agent

open Reactor Machine Api Dns

/-! ## The program -/

/-- `load_balance::update`, whose body is empty. -/
def LoadBalance.update (lb : LoadBalance) (_hostInfos : List HostInfo) : LoadBalance := lb

/-- A `route_lb` with the objects it has created. An object is its number in the order of creation;
memory that is used again is another object. -/
structure RouteLb where
  mId : Int32
  mLbMap : UInt64 → Option ℕ
  /-- The objects that have not been deleted. -/
  objects : ℕ → Option LoadBalance
  created : ℕ
  /-- The tasks that `pull` has given to `g_dns_client`, each the object that it captures. -/
  pulls : List ℕ

namespace RouteLb

/-- The constructor of `route_lb`. -/
def new (id : Int32) : RouteLb where
  mId := id
  mLbMap _ := none
  objects _ := none
  created := 0
  pulls := []

/-- `load_balance::pull`. -/
def pull (s : RouteLb) (p : ℕ) : Except Halt RouteLb :=
  match s.objects p with
  | none => .error .undefined
  | some lb =>
    .ok { s with
      objects := Function.update s.objects p (some { lb with status := some .pulling })
      pulls := s.pulls ++ [p] }

/-- `m_lb_map[mod_cmd] = new load_balance(modid, cmdid)`. -/
def create (s : RouteLb) (u : Uninitialized) (modid cmdid : Int32) : RouteLb :=
  { s with
    mLbMap := Function.update s.mLbMap (routeKey modid cmdid) (some s.created)
    objects := Function.update s.objects s.created (some (LoadBalance.new u modid cmdid))
    created := s.created + 1 }

/-- `m_lb_map[mod_cmd]->pull()`. -/
def pullEntry (s : RouteLb) (modid cmdid : Int32) : Except Halt RouteLb :=
  match s.mLbMap (routeKey modid cmdid) with
  | none => .error .undefined
  | some p => s.pull p

/-- `route_lb::get_host`; `u` is the memory of an entry that it creates. -/
def getHost (s : RouteLb) (u : Uninitialized) (modid cmdid : Int32) (host : HostInfo) :
    Except Halt ((Int32 × HostInfo) × RouteLb) :=
  match s.mLbMap (routeKey modid cmdid) with
  | none => do
    let s ← (s.create u modid cmdid).pullEntry modid cmdid
    .ok ((LarsRetCode.noexist.toInt, host), s)
  | some p =>
    match s.objects p with
    | none => .error .undefined
    | some lb =>
      if lb.mHostMap.isEmpty then
        if lb.status = some .pulling then .ok ((LarsRetCode.noexist.toInt, host), s)
        else .error .abort
      else do
        let (o, lb) ← lb.choiceOneHost host
        .ok ((o.ret, o.hInfo), { s with objects := Function.update s.objects p (some lb) })

/-- `delete` of an object. -/
def delete (s : RouteLb) (p : ℕ) : Except Halt RouteLb :=
  match s.objects p with
  | none => .error .undefined
  | some _ => .ok { s with objects := Function.update s.objects p none }

/-- `route_lb::update_host`. Its statement `(void)host` names nothing that is declared, and does
nothing. -/
def updateHost (s : RouteLb) (u : Uninitialized) (modid cmdid : Int32) (hostInfos : List HostInfo) :
    Except Halt (Int32 × RouteLb) :=
  let modCmd := routeKey modid cmdid
  match s.mLbMap modCmd with
  | none => do
    let s ← (s.create u modid cmdid).pullEntry modid cmdid
    .ok (0, s)
  | some p =>
    if hostInfos.isEmpty then do
      let s ← s.delete p
      .ok (0, { s with mLbMap := Function.update s.mLbMap modCmd none })
    else
      match s.objects p with
      | none => .error .undefined
      | some lb =>
        .ok (0, { s with objects := Function.update s.objects p (some (lb.update hostInfos)) })

end RouteLb

/-- A call of `get_host` or `update_host`. -/
inductive RouteCall
  | getHost (u : Uninitialized) (modid cmdid : Int32) (host : HostInfo)
  | updateHost (u : Uninitialized) (modid cmdid : Int32) (hostInfos : List HostInfo)

/-- The pair that a call is for. -/
def RouteCall.pair : RouteCall → Int32 × Int32
  | getHost _ modid cmdid _ | updateHost _ modid cmdid _ => (modid, cmdid)

namespace RouteLb

/-- A call, with the code it returns and the host that `get_host` leaves in `host`. -/
def step (s : RouteLb) : RouteCall → Except Halt ((Int32 × Option HostInfo) × RouteLb)
  | .getHost u modid cmdid host => do
    let (o, s) ← s.getHost u modid cmdid host
    .ok ((o.1, some o.2), s)
  | .updateHost u modid cmdid hostInfos => do
    let (ret, s) ← s.updateHost u modid cmdid hostInfos
    .ok ((ret, none), s)

/-! ## Consistency -/

/-- The entry of a pair. -/
def entry (s : RouteLb) (modid cmdid : Int32) : Option ℕ := s.mLbMap (routeKey modid cmdid)

/-- The table is consistent. -/
structure Consistent (s : RouteLb) : Prop where
  /-- No two pairs share an entry. -/
  apart : ∀ modid cmdid modid' cmdid' p, s.entry modid cmdid = some p →
    s.entry modid' cmdid' = some p → modid = modid' ∧ cmdid = cmdid'
  /-- Every entry is that of a pair. -/
  of_pair : ∀ k p, s.mLbMap k = some p → ∃ modid cmdid, k = routeKey modid cmdid
  /-- An entry has been constructed for its pair, and awaits its hosts. -/
  constructed : ∀ modid cmdid p, s.entry modid cmdid = some p → ∃ lb, s.objects p = some lb ∧
    lb.mModid = modid ∧ lb.mCmdid = cmdid ∧ lb.status = some .pulling ∧ lb.mHostMap = []
  /-- An entry has been pulled once. -/
  pulled : ∀ modid cmdid p, s.entry modid cmdid = some p → s.pulls.count p = 1
  /-- Objects yet to be created are not known. -/
  created : ∀ p, s.created ≤ p → s.objects p = none ∧ s.pulls.count p = 0

/-- A call for a pair leaves the entries of others alone. -/
structure Frame (pair : Int32 × Int32) (s s' : RouteLb) : Prop where
  entry : ∀ modid cmdid, (modid, cmdid) ≠ pair → s'.entry modid cmdid = s.entry modid cmdid
  object : ∀ modid cmdid p, (modid, cmdid) ≠ pair → s.entry modid cmdid = some p →
    s'.objects p = s.objects p ∧ s'.pulls.count p = s.pulls.count p

/-! ## What a call does -/

/-- The table with a new entry, pulled. -/
def added (s : RouteLb) (u : Uninitialized) (modid cmdid : Int32) : RouteLb :=
  { s with
    mLbMap := Function.update s.mLbMap (routeKey modid cmdid) (some s.created)
    objects := Function.update s.objects s.created
      (some { LoadBalance.new u modid cmdid with status := some .pulling })
    created := s.created + 1
    pulls := s.pulls ++ [s.created] }

/-- The table without an entry. -/
def removed (s : RouteLb) (modid cmdid : Int32) (p : ℕ) : RouteLb :=
  { s with
    mLbMap := Function.update s.mLbMap (routeKey modid cmdid) none
    objects := Function.update s.objects p none }

theorem pullEntry_create (s : RouteLb) (u : Uninitialized) (modid cmdid : Int32) :
    (s.create u modid cmdid).pullEntry modid cmdid = .ok (s.added u modid cmdid) := by
  simp [pullEntry, create, pull, added]

theorem getHost_of_none {s : RouteLb} {modid cmdid : Int32} (h : s.entry modid cmdid = none)
    (u : Uninitialized) (host : HostInfo) :
    s.getHost u modid cmdid host =
      .ok ((LarsRetCode.noexist.toInt, host), s.added u modid cmdid) := by
  have h : s.mLbMap (routeKey modid cmdid) = none := h
  rw [getHost, h]
  change ((s.create u modid cmdid).pullEntry modid cmdid >>= _) = _
  rw [pullEntry_create]
  rfl

/-- An entry that awaits its hosts has none to give. -/
theorem getHost_of_some {s : RouteLb} {modid cmdid : Int32} {p : ℕ} {lb : LoadBalance}
    (h : s.entry modid cmdid = some p) (hlb : s.objects p = some lb)
    (hstatus : lb.status = some .pulling) (hempty : lb.mHostMap = []) (u : Uninitialized)
    (host : HostInfo) :
    s.getHost u modid cmdid host = .ok ((LarsRetCode.noexist.toInt, host), s) := by
  have h : s.mLbMap (routeKey modid cmdid) = some p := h
  rw [getHost, h]
  simp only [hlb]
  rw [hempty, if_pos List.isEmpty_nil, if_pos hstatus]

theorem updateHost_of_none {s : RouteLb} {modid cmdid : Int32} (h : s.entry modid cmdid = none)
    (u : Uninitialized) (hostInfos : List HostInfo) :
    s.updateHost u modid cmdid hostInfos = .ok (0, s.added u modid cmdid) := by
  have h : s.mLbMap (routeKey modid cmdid) = none := h
  simp only [updateHost, h]
  rw [pullEntry_create]
  rfl

/-- An update without hosts deletes the entry, and one with hosts does nothing. -/
theorem updateHost_of_some {s : RouteLb} {modid cmdid : Int32} {p : ℕ} {lb : LoadBalance}
    (h : s.entry modid cmdid = some p) (hlb : s.objects p = some lb) (u : Uninitialized)
    (hostInfos : List HostInfo) :
    s.updateHost u modid cmdid hostInfos =
      .ok (0, if hostInfos = [] then s.removed modid cmdid p else s) := by
  have h : s.mLbMap (routeKey modid cmdid) = some p := h
  simp only [updateHost, h, hlb, delete, List.isEmpty_iff]
  split_ifs with hnil
  · rfl
  · rw [LoadBalance.update, Function.update_eq_self_iff.mpr hlb.symm]

@[simp] theorem entry_added_self (s : RouteLb) (u : Uninitialized) (modid cmdid : Int32) :
    (s.added u modid cmdid).entry modid cmdid = some s.created := Function.update_self ..

@[simp] theorem entry_removed_self (s : RouteLb) (modid cmdid : Int32) (p : ℕ) :
    (s.removed modid cmdid p).entry modid cmdid = none := Function.update_self ..

/-- Different pairs have different keys. -/
theorem routeKey_ne {modid cmdid modid' cmdid' : Int32} (h : (modid, cmdid) ≠ (modid', cmdid')) :
    routeKey modid cmdid ≠ routeKey modid' cmdid' := fun hkey => by
  obtain ⟨rfl, rfl⟩ := routeKey_injective hkey
  exact h rfl

theorem entry_added_of_ne {modid cmdid modid' cmdid' : Int32}
    (h : (modid', cmdid') ≠ (modid, cmdid)) (s : RouteLb) (u : Uninitialized) :
    (s.added u modid cmdid).entry modid' cmdid' = s.entry modid' cmdid' := by
  simp only [entry, added, Function.update_of_ne (routeKey_ne h)]

theorem entry_removed_of_ne {modid cmdid modid' cmdid' : Int32}
    (h : (modid', cmdid') ≠ (modid, cmdid)) (s : RouteLb) (p : ℕ) :
    (s.removed modid cmdid p).entry modid' cmdid' = s.entry modid' cmdid' := by
  simp only [entry, removed, Function.update_of_ne (routeKey_ne h)]

/-- What a call for the pair does to the table. -/
inductive Effect (modid cmdid : Int32) (s : RouteLb) : RouteLb → Prop
  | same : Effect modid cmdid s s
  | added (u : Uninitialized) (h : s.entry modid cmdid = none) :
      Effect modid cmdid s (s.added u modid cmdid)
  | removed (p : ℕ) (h : s.entry modid cmdid = some p) :
      Effect modid cmdid s (s.removed modid cmdid p)

/-- **A call** on a consistent table fails no assertion. -/
theorem Consistent.step {s : RouteLb} (h : s.Consistent) (e : RouteCall) :
    ∃ o s', s.step e = .ok (o, s') ∧ Effect e.pair.1 e.pair.2 s s' := by
  cases e with
  | getHost u modid cmdid host =>
    cases hentry : s.entry modid cmdid with
    | none =>
      refine ⟨(LarsRetCode.noexist.toInt, some host), s.added u modid cmdid, ?_, .added u hentry⟩
      rw [RouteLb.step, getHost_of_none hentry]
      rfl
    | some p =>
      obtain ⟨lb, hlb, -, -, hstatus, hempty⟩ := h.constructed modid cmdid p hentry
      refine ⟨(LarsRetCode.noexist.toInt, some host), s, ?_, .same⟩
      rw [RouteLb.step, getHost_of_some hentry hlb hstatus hempty]
      rfl
  | updateHost u modid cmdid hostInfos =>
    cases hentry : s.entry modid cmdid with
    | none =>
      refine ⟨(0, none), s.added u modid cmdid, ?_, .added u hentry⟩
      rw [RouteLb.step, updateHost_of_none hentry]
      rfl
    | some p =>
      obtain ⟨lb, hlb, -⟩ := h.constructed modid cmdid p hentry
      refine ⟨(0, none), if hostInfos = [] then s.removed modid cmdid p else s, ?_, ?_⟩
      · rw [RouteLb.step, updateHost_of_some hentry hlb]
        rfl
      · split_ifs
        · exact .removed p hentry
        · exact .same

variable {s s' : RouteLb} {modid cmdid : Int32}

/-- The object of an entry has been created. -/
theorem Consistent.lt_created (h : s.Consistent) {p : ℕ} (hp : s.entry modid cmdid = some p) :
    p < s.created := by
  by_contra hcon
  obtain ⟨lb, hlb, -⟩ := h.constructed modid cmdid p hp
  rw [(h.created p (not_lt.mp hcon)).1] at hlb
  cases hlb

theorem Effect.frame (he : Effect modid cmdid s s') (h : s.Consistent) :
    Frame (modid, cmdid) s s' := by
  cases he with
  | same => exact ⟨fun _ _ _ => rfl, fun _ _ _ _ _ => ⟨rfl, rfl⟩⟩
  | added u hentry =>
    refine ⟨fun modid' cmdid' hne => entry_added_of_ne hne s u, fun modid' cmdid' p _ hp => ?_⟩
    have hlt := h.lt_created hp
    refine ⟨Function.update_of_ne hlt.ne _ _, ?_⟩
    change (s.pulls ++ [s.created]).count p = _
    rw [List.count_append, List.count_singleton, if_neg (by simpa using hlt.ne'), Nat.add_zero]
  | removed q hentry =>
    refine ⟨fun modid' cmdid' hne => entry_removed_of_ne hne s q, fun modid' cmdid' p hne hp => ?_⟩
    have hpq : p ≠ q := by
      rintro rfl
      obtain ⟨rfl, rfl⟩ := h.apart _ _ _ _ p hp hentry
      exact hne rfl
    exact ⟨Function.update_of_ne hpq _ _, rfl⟩

/-- The entries after a call are entries of before, as they were, but for a new one. -/
theorem Effect.entry_cases (he : Effect modid cmdid s s') (h : s.Consistent)
    {modid' cmdid' : Int32} {p : ℕ} (hp : s'.entry modid' cmdid' = some p) :
    (s.entry modid' cmdid' = some p ∧ s'.objects p = s.objects p ∧
      s'.pulls.count p = s.pulls.count p) ∨
    (modid' = modid ∧ cmdid' = cmdid ∧ p = s.created ∧ ∃ u, s' = s.added u modid cmdid) := by
  have hframe := he.frame h
  by_cases hpair : (modid', cmdid') = (modid, cmdid)
  · obtain ⟨rfl, rfl⟩ := Prod.mk.inj hpair
    cases he with
    | same => exact Or.inl ⟨hp, rfl, rfl⟩
    | added u hentry =>
      rw [entry_added_self] at hp
      exact Or.inr ⟨rfl, rfl, (Option.some.inj hp).symm, u, rfl⟩
    | removed q hentry =>
      rw [entry_removed_self] at hp
      cases hp
  · have hold := hframe.entry modid' cmdid' hpair ▸ hp
    exact Or.inl ⟨hold, hframe.object modid' cmdid' p hpair hold⟩

theorem Effect.of_pair (he : Effect modid cmdid s s') (h : s.Consistent) {k : UInt64} {p : ℕ}
    (hp : s'.mLbMap k = some p) : ∃ modid cmdid, k = routeKey modid cmdid := by
  by_cases hk : k = routeKey modid cmdid
  · exact ⟨modid, cmdid, hk⟩
  · cases he with
    | same => exact h.of_pair k p hp
    | added u hentry => exact h.of_pair k p ((Function.update_of_ne hk _ _).symm.trans hp)
    | removed q hentry => exact h.of_pair k p ((Function.update_of_ne hk _ _).symm.trans hp)

theorem Effect.created (he : Effect modid cmdid s s') (h : s.Consistent) {p : ℕ}
    (hp : s'.created ≤ p) : s'.objects p = none ∧ s'.pulls.count p = 0 := by
  cases he with
  | same => exact h.created p hp
  | added u hentry =>
    have hlt : s.created < p := hp
    obtain ⟨hobj, hcount⟩ := h.created p hlt.le
    refine ⟨(Function.update_of_ne hlt.ne' _ _).trans hobj, ?_⟩
    change (s.pulls ++ [s.created]).count p = 0
    rw [List.count_append, hcount, List.count_singleton, if_neg (by simpa using hlt.ne)]
  | removed q hentry =>
    obtain ⟨hobj, hcount⟩ := h.created p hp
    refine ⟨?_, hcount⟩
    change Function.update s.objects q none p = none
    rw [Function.update_apply, hobj, ite_self]

/-- **Consistency, step.** -/
theorem Effect.consistent (he : Effect modid cmdid s s') (h : s.Consistent) : s'.Consistent where
  apart m c m' c' p hp hp' := by
    obtain ⟨hold, -⟩ | ⟨hm, hc, hnew, -⟩ := he.entry_cases h hp <;>
      obtain ⟨hold', -⟩ | ⟨hm', hc', hnew', -⟩ := he.entry_cases h hp'
    · exact h.apart m c m' c' p hold hold'
    · exact absurd (h.lt_created hold) (hnew' ▸ lt_irrefl _)
    · exact absurd (h.lt_created hold') (hnew ▸ lt_irrefl _)
    · exact ⟨hm.trans hm'.symm, hc.trans hc'.symm⟩
  of_pair _ _ hp := he.of_pair h hp
  constructed m c p hp := by
    obtain ⟨hold, hobj, -⟩ | ⟨rfl, rfl, rfl, u, rfl⟩ := he.entry_cases h hp
    · exact hobj ▸ h.constructed m c p hold
    · exact ⟨_, Function.update_self .., rfl, rfl, rfl, rfl⟩
  pulled m c p hp := by
    obtain ⟨hold, -, hcount⟩ | ⟨rfl, rfl, rfl, u, rfl⟩ := he.entry_cases h hp
    · exact hcount.trans (h.pulled m c p hold)
    · change (s.pulls ++ [s.created]).count s.created = 1
      rw [List.count_append, (h.created _ le_rfl).2, List.count_singleton_self]
  created _ hp := he.created h hp

theorem consistent_new (id : Int32) : (new id).Consistent where
  apart _ _ _ _ _ hp := nomatch hp
  of_pair _ _ hp := nomatch hp
  constructed _ _ _ hp := nomatch hp
  pulled _ _ _ hp := nomatch hp
  created _ _ := ⟨rfl, rfl⟩

/-- **Consistency**: all calls on a new table return. After them the table is consistent, and the
next call returns, too, and leaves the entries of all other pairs alone. -/
theorem run_consistent (id : Int32) (es : List RouteCall) :
    ∃ outs s, run RouteLb.step (new id) es = .ok (outs, s) ∧ s.Consistent ∧
      ∀ e, ∃ o s', s.step e = .ok (o, s') ∧ Frame e.pair s s' := by
  have hstep : ∀ s e, Consistent s → ∃ o s', s.step e = .ok (o, s') ∧ Consistent s' := by
    intro s e hs
    obtain ⟨o, s', hcall, he⟩ := hs.step e
    exact ⟨o, s', hcall, he.consistent hs⟩
  obtain ⟨outs, s, hrun, hs⟩ := exists_run_invariant hstep es (consistent_new id)
  refine ⟨outs, s, hrun, hs, fun e => ?_⟩
  obtain ⟨o, s', hcall, he⟩ := hs.step e
  exact ⟨o, s', hcall, he.frame hs⟩

/-- Two pairs are looked up, the first of them twice; then it has no hosts. -/
def twoPairs : List RouteCall :=
  [.getHost ⟨none, 0⟩ 1 2 { ip := 0, port := 0 },
    .getHost ⟨none, 7⟩ 1 (-1) { ip := 0, port := 0 },
    .getHost ⟨none, 0⟩ 1 2 ⟨0, 0, 0, 0, 0, 0, 0, 0, false⟩, .updateHost ⟨none, 0⟩ 1 2 []]

/-- The second keeps its entry, which has been pulled once. -/
theorem run_consistent_two : ∃ outs s, run RouteLb.step (new 0) twoPairs = .ok (outs, s) ∧
    s.entry 1 2 = none ∧ s.entry 1 (-1) = some 1 ∧ s.pulls = [0, 1] ∧
    ∃ lb, s.objects 1 = some lb ∧ lb.mModid = 1 ∧ lb.mCmdid = -1 ∧
      lb.status = some .pulling ∧ lb.mHostMap = [] := by
  obtain ⟨outs, s, hrun, hs, -⟩ := run_consistent 0 twoPairs
  have hend : ((run RouteLb.step (new 0) twoPairs).map fun r =>
      (r.2.entry 1 2, r.2.entry 1 (-1), r.2.pulls)).toOption = some (none, some 1, [0, 1]) := by
    decide
  rw [hrun] at hend
  obtain ⟨hfirst, hsecond, hpulls⟩ : s.entry 1 2 = none ∧ s.entry 1 (-1) = some 1 ∧
      s.pulls = [0, 1] := by
    simpa [Except.map, Except.toOption] using hend
  exact ⟨outs, s, hrun, hfirst, hsecond, hpulls, hs.constructed 1 (-1) 1 hsecond⟩

end RouteLb

end Lars.Agent
