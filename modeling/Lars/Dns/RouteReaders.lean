import Lars.Dns.Route
import Lars.Foundations.Run

/-!
# Readers of the route map

`route::get_hosts` runs in the threads of the server while `check_route_changes` loads and swaps in
a thread of its own (`lars_dns/src/dns_route.cc`). A reader takes the pointer to the map served
under the mutex, and reads the map without it. The updater writes into the map behind
`m_tmp_pointer` without it, row by row, and exchanges the pointers under it.

`SharedRoute` is the route map with its readers and the place where the updater is; its steps are
the accesses of the readers and of the updater, in any order. A map is shared by the pointers to it,
and `swap` makes a copy if the map served has a pointer besides `m_data_pointer`.

* What a reader holds is the map of one table, whole, never the map being written, and stays as it
  is until he releases it (`held_of_run`).
* Without readers between them, the steps of the updater are `load_route_data` and `swap`
  (`run_load`).
-/

namespace Lars.Dns

open Machine

/-- Where the updater is. -/
inductive Updater
  /-- Before `load_route_data`, or behind a load that has failed. -/
  | idle
  /-- The map behind `m_tmp_pointer` is cleared. -/
  | cleared
  /-- The query has been answered with the table `rows`, of which `rest` is to be inserted. -/
  | filling (rows rest : List RouteRow)
  deriving DecidableEq

/-- The route map with its readers, each with the pointer he holds, and the updater. `loads` are the
tables that have been loaded successfully and served, the last one first; no step looks at it. -/
structure SharedRoute (ρ : Type) where
  route : Route
  readers : Finmap fun _ : ρ => ℕ
  updater : Updater
  loads : List (List RouteRow)

/-- The accesses of the readers and of the updater. -/
inductive Access (ρ : Type)
  /-- `get_data_pointer`. -/
  | getDataPointer (reader : ρ)
  /-- A lookup through the pointer taken. -/
  | find (reader : ρ) (modid cmdid : Int32)
  /-- The pointer goes out of scope. -/
  | release (reader : ρ)
  | clear
  | query (answer : QueryAnswer) (rows : List RouteRow)
  | insertRow
  | swap

namespace SharedRoute

variable {ρ : Type}

/-- The server once `build_maps` is through. -/
def start (rows : List RouteRow) : SharedRoute ρ where
  route := Route.new.store Route.new.dataPointer (rows.foldl Dns.insertRow Route.new.data)
  readers := ∅
  updater := .idle
  loads := [rows]

/-- How many pointers there are to a map. -/
def useCount (s : SharedRoute ρ) (p : ℕ) : ℕ :=
  (if s.route.dataPointer = p then 1 else 0) + (if s.route.tmpPointer = p then 1 else 0) +
    s.readers.entries.countP fun e => e.2 = p

/-- `m_data_pointer.unique()`. -/
def unique (s : SharedRoute ρ) : Bool := s.useCount s.route.dataPointer = 1

variable [DecidableEq ρ]

/-- An access, with the hosts that a lookup finds. -/
def step (s : SharedRoute ρ) : Access ρ → Except Disabled (Finset UInt64 × SharedRoute ρ)
  | .getDataPointer reader =>
    match s.readers.lookup reader with
    | some _ => .error .disabled
    | none => .ok (∅, { s with readers := s.readers.insert reader s.route.dataPointer })
  | .find reader modid cmdid =>
    match s.readers.lookup reader with
    | some p => .ok ((s.route.heap p).get (routeKey modid cmdid), s)
    | none => .error .disabled
  | .release reader =>
    match s.readers.lookup reader with
    | some _ => .ok (∅, { s with readers := s.readers.erase reader })
    | none => .error .disabled
  | .clear =>
    match s.updater with
    | .idle =>
      .ok (∅, { s with route := s.route.store s.route.tmpPointer ∅, updater := .cleared })
    | _ => .error .disabled
  | .query answer rows =>
    match s.updater, answer with
    | .cleared, .ok => .ok (∅, { s with updater := .filling rows rows })
    | .cleared, _ => .ok (∅, { s with updater := .idle })
    | _, _ => .error .disabled
  | .insertRow =>
    match s.updater with
    | .filling rows (row :: rest) =>
      .ok (∅, { s with
        route := s.route.store s.route.tmpPointer (Dns.insertRow s.route.tmp row)
        updater := .filling rows rest })
    | _ => .error .disabled
  | .swap =>
    match s.updater with
    | .filling rows [] =>
      .ok (∅, { s with
        route := s.route.swap s.unique
        updater := .idle
        loads := rows :: s.loads })
    | _ => .error .disabled

omit [DecidableEq ρ] in
theorem start_eq (tables : Tables) :
    Route.new.buildMaps .ok tables = some (start tables.routeData : SharedRoute ρ).route := rfl

/-- What an access does. -/
inductive Made (s : SharedRoute ρ) : Access ρ → SharedRoute ρ → Prop
  | getDataPointer {reader : ρ} (h : s.readers.lookup reader = none) :
    Made s (.getDataPointer reader)
      { s with readers := s.readers.insert reader s.route.dataPointer }
  | find {reader : ρ} {modid cmdid : Int32} : Made s (.find reader modid cmdid) s
  | release {reader : ρ} : Made s (.release reader) { s with readers := s.readers.erase reader }
  | clear (h : s.updater = .idle) :
    Made s .clear { s with route := s.route.store s.route.tmpPointer ∅, updater := .cleared }
  | queryOk {rows : List RouteRow} (h : s.updater = .cleared) :
    Made s (.query .ok rows) { s with updater := .filling rows rows }
  | queryFails {answer : QueryAnswer} {rows : List RouteRow} (h : s.updater = .cleared) :
    Made s (.query answer rows) { s with updater := .idle }
  | insertRow {rows rest : List RouteRow} {row : RouteRow}
      (h : s.updater = .filling rows (row :: rest)) :
    Made s .insertRow { s with
      route := s.route.store s.route.tmpPointer (Dns.insertRow s.route.tmp row)
      updater := .filling rows rest }
  | swap {rows : List RouteRow} (h : s.updater = .filling rows []) :
    Made s .swap
      { s with route := s.route.swap s.unique, updater := .idle, loads := rows :: s.loads }

theorem made_of_step {s s' : SharedRoute ρ} {e : Access ρ} {o : Finset UInt64}
    (h : step s e = .ok (o, s')) : Made s e s' := by
  cases e with
  | getDataPointer reader =>
    simp only [step] at h
    split at h <;> cases h
    exact .getDataPointer ‹_›
  | find reader modid cmdid =>
    simp only [step] at h
    split at h <;> cases h
    exact .find
  | release reader =>
    simp only [step] at h
    split at h <;> cases h
    exact .release
  | clear =>
    simp only [step] at h
    split at h <;> cases h
    exact .clear ‹_›
  | query answer rows =>
    simp only [step] at h
    split at h <;> cases h
    · exact .queryOk ‹_›
    · exact .queryFails ‹_›
  | insertRow =>
    simp only [step] at h
    split at h <;> cases h
    exact .insertRow ‹_›
  | swap =>
    simp only [step] at h
    split at h <;> cases h
    exact .swap ‹_›

/-! ## The map that a reader holds -/

/-- A reader holds the pointer. -/
def Holds (s : SharedRoute ρ) (reader : ρ) (p : ℕ) : Prop := s.readers.lookup reader = some p

/-- The map behind a pointer is that of a table loaded. -/
def Loaded (s : SharedRoute ρ) (p : ℕ) : Prop := ∃ rows ∈ s.loads, s.route.heap p = routeMap rows

/-- A map whose use count is one has no reader. -/
theorem not_holds_of_unique {s : SharedRoute ρ} (h : s.unique = true) (reader : ρ) :
    ¬ s.Holds reader s.route.dataPointer := by
  intro hholds
  have hcount : 0 < s.readers.entries.countP fun e => e.2 = s.route.dataPointer :=
    Multiset.countP_pos.mpr
      ⟨⟨reader, s.route.dataPointer⟩, Finmap.lookup_eq_some_iff.mp hholds, rfl⟩
  have hone : s.useCount s.route.dataPointer = 1 := of_decide_eq_true h
  rw [useCount, if_pos rfl] at hone
  omega

/-- What holds at all times: whatever can be read is the map of a table, and the map being written
is not read and has the rows of the table inserted so far. -/
structure Consistent (s : SharedRoute ρ) : Prop where
  held_lt : ∀ reader p, s.Holds reader p → p < s.route.next
  held_ne : ∀ reader p, s.Holds reader p → p ≠ s.route.tmpPointer
  held : ∀ reader p, s.Holds reader p → s.Loaded p
  data : s.Loaded s.route.dataPointer
  cleared : s.updater = .cleared → s.route.tmp = ∅
  filling : ∀ rows rest, s.updater = .filling rows rest →
    ∃ done, rows = done ++ rest ∧ s.route.tmp = routeMap done

theorem consistent_start (rows : List RouteRow) :
    (start rows : SharedRoute ρ).Consistent where
  held_lt reader p h := by cases h
  held_ne reader p h := by cases h
  held reader p h := by cases h
  data := ⟨rows, List.mem_singleton_self rows, Route.data_store_data _ _⟩
  cleared h := by cases h
  filling _ _ h := by cases h

/-- What is written goes behind `m_tmp_pointer`. -/
theorem heap_store_tmp {r : Route} {p : ℕ} (h : p ≠ r.tmpPointer) (m : RouteMap) :
    (r.store r.tmpPointer m).heap p = r.heap p := Function.update_of_ne h _ _

/-- `swap` writes to no map there is. -/
theorem heap_swap {r : Route} {p : ℕ} (h : p < r.next) (unique : Bool) :
    (r.swap unique).heap p = r.heap p := by
  unfold Route.swap
  split_ifs
  · rfl
  · exact Function.update_of_ne (Nat.ne_of_lt h) _ _

variable {s s' : SharedRoute ρ} {e : Access ρ}

/-- Who holds a pointer after an access has taken it now or has held it before. -/
theorem Made.holds_of (h : Made s e s') {reader : ρ} {p : ℕ} (hp : s'.Holds reader p) :
    e = .getDataPointer reader ∧ p = s.route.dataPointer ∨ s.Holds reader p := by
  cases h with
  | @getDataPointer taker h =>
    by_cases hr : reader = taker
    · refine Or.inl ⟨by rw [hr], ?_⟩
      rw [Holds, hr, Finmap.lookup_insert] at hp
      exact (Option.some.inj hp).symm
    · rw [Holds, Finmap.lookup_insert_of_ne _ hr] at hp
      exact Or.inr hp
  | @release leaver =>
    by_cases hr : reader = leaver
    · rw [Holds, hr, Finmap.lookup_erase] at hp
      cases hp
    · rw [Holds, Finmap.lookup_erase_ne hr] at hp
      exact Or.inr hp
  | find => exact Or.inr hp
  | clear => exact Or.inr hp
  | queryOk => exact Or.inr hp
  | queryFails => exact Or.inr hp
  | insertRow => exact Or.inr hp
  | swap => exact Or.inr hp

/-- A reader keeps his pointer until he releases it. -/
theorem Made.holds (h : Made s e s') {reader : ρ} {p : ℕ} (hp : s.Holds reader p)
    (hne : e ≠ .release reader) : s'.Holds reader p := by
  cases h with
  | @getDataPointer taker h =>
    have hr : reader ≠ taker := by
      rintro rfl
      rw [Holds, h] at hp
      cases hp
    exact (Finmap.lookup_insert_of_ne _ hr).trans hp
  | @release leaver =>
    have hr : reader ≠ leaver := by
      rintro rfl
      exact hne rfl
    exact (Finmap.lookup_erase_ne hr).trans hp
  | find => exact hp
  | clear => exact hp
  | queryOk => exact hp
  | queryFails => exact hp
  | insertRow => exact hp
  | swap => exact hp

/-- An access leaves all maps alone but the one behind `m_tmp_pointer`. -/
theorem Made.heap_eq (h : Made s e s') {p : ℕ} (hlt : p < s.route.next)
    (hne : p ≠ s.route.tmpPointer) : s'.route.heap p = s.route.heap p := by
  cases h with
  | clear => exact heap_store_tmp hne _
  | insertRow => exact heap_store_tmp hne _
  | swap => exact heap_swap hlt _
  | getDataPointer => rfl
  | find => rfl
  | release => rfl
  | queryOk => rfl
  | queryFails => rfl

theorem Made.loaded (h : Made s e s') {p : ℕ} (hlt : p < s.route.next)
    (hne : p ≠ s.route.tmpPointer) (hp : s.Loaded p) : s'.Loaded p := by
  obtain ⟨rows, hrows, hheap⟩ := hp
  refine ⟨rows, ?_, (h.heap_eq hlt hne).trans hheap⟩
  cases h with
  | swap => exact List.mem_cons_of_mem _ hrows
  | _ => exact hrows

/-- The pointers of the route after a `swap`: the map loaded is served, and what is written next is
the map served before if it has no reader, or a new one. -/
theorem swap_pointers (r : Route) (unique : Bool) :
    (r.swap unique).dataPointer = r.tmpPointer ∧ r.next ≤ (r.swap unique).next ∧
      ((r.swap unique).tmpPointer = r.dataPointer ∧ unique = true ∨
        (r.swap unique).tmpPointer = r.next) := by
  cases unique with
  | true => exact ⟨rfl, le_rfl, Or.inl ⟨rfl, rfl⟩⟩
  | false => exact ⟨rfl, Nat.le_succ _, Or.inr rfl⟩

theorem Made.next_le (h : Made s e s') : s.route.next ≤ s'.route.next := by
  cases h with
  | swap => exact (swap_pointers s.route s.unique).2.1
  | _ => exact le_rfl

/-- No access makes a pointer held the one written through. -/
theorem Made.held_ne (h : Made s e s') (hs : s.Consistent) {reader : ρ} {p : ℕ}
    (hp : s'.Holds reader p) : p ≠ s'.route.tmpPointer := by
  have hold : p ≠ s.route.tmpPointer := by
    rcases h.holds_of hp with ⟨-, rfl⟩ | hp
    · exact s.route.distinct
    · exact hs.held_ne reader p hp
  cases h with
  | swap =>
    have hp : s.Holds reader p := hp
    rcases (swap_pointers s.route s.unique).2.2 with ⟨htmp, hunique⟩ | htmp
    · rintro rfl
      refine not_holds_of_unique hunique reader ?_
      rwa [htmp] at hp
    · rw [htmp]
      exact Nat.ne_of_lt (hs.held_lt reader p hp)
  | _ => exact hold

theorem Made.consistent (h : Made s e s') (hs : s.Consistent) : s'.Consistent where
  held_lt reader p hp := by
    rcases h.holds_of hp with ⟨-, rfl⟩ | hp
    · exact lt_of_lt_of_le s.route.data_lt h.next_le
    · exact lt_of_lt_of_le (hs.held_lt reader p hp) h.next_le
  held_ne reader p hp := h.held_ne hs hp
  held reader p hp := by
    rcases h.holds_of hp with ⟨-, rfl⟩ | hp
    · exact h.loaded s.route.data_lt s.route.distinct hs.data
    · exact h.loaded (hs.held_lt reader p hp) (hs.held_ne reader p hp) (hs.held reader p hp)
  data := by
    cases h with
    | @swap rows hfull =>
      obtain ⟨done, hrows, htmp⟩ := hs.filling rows [] hfull
      rw [List.append_nil] at hrows
      refine ⟨rows, List.mem_cons_self, ?_⟩
      exact (Route.data_swap s.unique s.route).trans (htmp.trans (by rw [hrows]))
    | clear => exact Made.loaded (.clear ‹_›) s.route.data_lt s.route.distinct hs.data
    | insertRow hrest =>
      exact Made.loaded (.insertRow hrest) s.route.data_lt s.route.distinct hs.data
    | _ => exact hs.data
  cleared hc := by
    cases h with
    | clear => exact Route.tmp_store_tmp _ _
    | queryOk => cases hc
    | queryFails => cases hc
    | insertRow => cases hc
    | swap => cases hc
    | getDataPointer => exact hs.cleared hc
    | find => exact hs.cleared hc
    | release => exact hs.cleared hc
  filling rows rest hf := by
    cases h with
    | clear => cases hf
    | queryOk hcleared =>
      cases hf
      exact ⟨[], rfl, hs.cleared hcleared⟩
    | queryFails => cases hf
    | @insertRow rows' rest' row hrest =>
      cases hf
      obtain ⟨done, hrows, htmp⟩ := hs.filling _ _ hrest
      refine ⟨done ++ [row], by rw [hrows, List.append_assoc, List.singleton_append], ?_⟩
      refine (Route.tmp_store_tmp _ _).trans ?_
      rw [htmp, routeMap, routeMap, List.foldl_append]
      rfl
    | swap => cases hf
    | getDataPointer => exact hs.filling rows rest hf
    | find => exact hs.filling rows rest hf
    | release => exact hs.filling rows rest hf

theorem consistent_run {es : List (Access ρ)} {outs : List (Finset UInt64)} (hs : s.Consistent)
    (h : run step s es = .ok (outs, s')) : s'.Consistent :=
  run_invariant (fun _ _ _ _ hs h => (made_of_step h).consistent hs) hs h

/-- While a reader holds a pointer, the map behind it stays as it is. -/
theorem heap_run {es : List (Access ρ)} {outs : List (Finset UInt64)} {reader : ρ} {p : ℕ}
    (hs : s.Consistent) (hp : s.Holds reader p) (hes : .release reader ∉ es)
    (h : run step s es = .ok (outs, s')) :
    s'.Holds reader p ∧ s'.route.heap p = s.route.heap p := by
  induction es generalizing s outs with
  | nil =>
    obtain ⟨-, rfl⟩ : [] = outs ∧ s = s' := by simpa using h
    exact ⟨hp, rfl⟩
  | cons e es ih =>
    obtain ⟨hne, hes⟩ := List.ne_and_not_mem_of_not_mem_cons hes
    obtain ⟨o, s₁, os, hstep, hrun, -⟩ := run_cons_eq_ok.mp h
    have hmade := made_of_step hstep
    obtain ⟨hp', hheap⟩ := ih (hmade.consistent hs) (hmade.holds hp hne.symm) hes hrun
    exact ⟨hp', hheap.trans (hmade.heap_eq (hs.held_lt reader p hp) (hs.held_ne reader p hp))⟩

/-- **Readers see whole tables that stay.** Whatever the readers and the updater have done, a map
that a reader holds is that of one table that was loaded, and is not the one being written; and
whatever they do next, as long as he does not release it he holds it and it stays as it is. -/
theorem held_of_run {rows : List RouteRow} {es : List (Access ρ)} {outs : List (Finset UInt64)}
    (h : run step (start rows) es = .ok (outs, s)) {reader : ρ} {p : ℕ}
    (hp : s.Holds reader p) :
    p ≠ s.route.tmpPointer ∧ s.Loaded p ∧
      ∀ es' outs' s', .release reader ∉ es' → run step s es' = .ok (outs', s') →
        s'.Holds reader p ∧ s'.route.heap p = s.route.heap p := by
  have hs : s.Consistent := consistent_run (consistent_start rows) h
  exact ⟨hs.held_ne reader p hp, hs.held reader p hp,
    fun _ _ _ hes hrun => heap_run hs hp hes hrun⟩

/-- A reader still holds the first map when the second is swapped in. -/
theorem held_of_run_swap : ∃ outs s,
    run step (start [⟨1, 1, 5, 80⟩] : SharedRoute ℕ)
      [.getDataPointer 0, .clear, .query .ok [], .swap] = .ok (outs, s) ∧
    s.Holds 0 0 ∧ 0 ≠ s.route.tmpPointer ∧ s.Loaded 0 ∧
      ∀ es' outs' s', .release 0 ∉ es' → run step s es' = .ok (outs', s') →
        s'.Holds 0 0 ∧ s'.route.heap 0 = s.route.heap 0 := by
  have h : run step (start [⟨1, 1, 5, 80⟩] : SharedRoute ℕ)
      [.getDataPointer 0, .clear, .query .ok [], .swap] = .ok (_, _) := rfl
  exact ⟨_, _, h, rfl, held_of_run h rfl⟩

/-! ## The updater alone -/

theorem store_store (r : Route) (p : ℕ) (m m' : RouteMap) :
    (r.store p m).store p m' = r.store p m' := by
  simp only [Route.store, Function.update_idem]

theorem store_heap_self (r : Route) (p : ℕ) : r.store p (r.heap p) = r := by
  simp only [Route.store, Function.update_eq_self]

/-- The rows that are left, inserted one after another. -/
theorem run_insertRow {rows rest : List RouteRow} (hs : s.updater = .filling rows rest) :
    run step s (List.replicate rest.length .insertRow) =
      .ok (List.replicate rest.length ∅, { s with
        route := s.route.store s.route.tmpPointer (rest.foldl Dns.insertRow s.route.tmp)
        updater := .filling rows [] }) := by
  induction rest generalizing s with
  | nil =>
    have hroute : s.route.store s.route.tmpPointer s.route.tmp = s.route := store_heap_self _ _
    rw [List.foldl_nil, hroute, ← hs]
    rfl
  | cons row rest ih =>
    have hstep : step s .insertRow = .ok (∅, { s with
        route := s.route.store s.route.tmpPointer (Dns.insertRow s.route.tmp row)
        updater := .filling rows rest }) := by
      simp only [step, hs]
    rw [List.length_cons, List.replicate_succ, run_cons_ok hstep, ih rfl, Route.tmp_store_tmp]
    dsimp only
    rw [show (s.route.store s.route.tmpPointer (Dns.insertRow s.route.tmp row)).tmpPointer =
      s.route.tmpPointer from rfl, store_store]
    rfl

/-- **The updater alone**: without readers in between its accesses are `load_route_data`, which is
followed by `swap` if it has succeeded. -/
theorem run_load (tables : Tables) (hs : s.updater = .idle) :
    (∃ outs, run step s (.clear :: .query .ok tables.routeData ::
        List.replicate tables.routeData.length .insertRow) = .ok (outs, { s with
      route := (s.route.loadRouteData .ok tables).2
      updater := .filling tables.routeData [] })) ∧
    ∀ answer, answer ≠ .ok →
      ∃ outs, run step s [.clear, .query answer tables.routeData] = .ok (outs, { s with
        route := (s.route.loadRouteData answer tables).2, updater := .idle }) := by
  have hclear : step s .clear = .ok (∅, { s with
      route := s.route.store s.route.tmpPointer ∅, updater := .cleared }) := by
    simp only [step, hs]
  constructor
  · refine ⟨∅ :: ∅ :: List.replicate tables.routeData.length ∅, ?_⟩
    rw [run_cons_ok hclear, run_cons_ok rfl, run_insertRow rfl]
    rfl
  · intro answer hanswer
    cases answer with
    | ok => exact absurd rfl hanswer
    | queryError => exact ⟨[∅, ∅], by rw [run_cons_ok hclear]; rfl⟩
    | storeError => exact ⟨[∅, ∅], by rw [run_cons_ok hclear]; rfl⟩

end SharedRoute

end Lars.Dns
