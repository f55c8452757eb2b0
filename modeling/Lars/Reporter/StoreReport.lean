import Mathlib.Algebra.Order.Ring.Int
import Mathlib.Tactic.SplitIfs
import Lars.Foundations.LastWrite
import Lars.Foundations.Run
import Lars.Proto

/-!
# Storing reports

The reporter stores the results of calls that agents report (`lars_reporter/src/`).
`get_report_status` makes a task of a request and gives it to the next loop of
`store_thread_pool`, in turn. The task upserts a row for each result. Every loop runs its tasks in
the order in which it got them, but nothing orders the tasks of different loops, and the upsert
replaces a row whatever its `ts`.

* `stored_iff`: after all tasks, in whatever order the loops have run them, the rows hold the last
  results received if and only if no loop has an older result of the same key for its last one.
* `stored_of_one`: with one thread they do.
-/

namespace Lars.Reporter

open Machine

/-! ## The pool -/

/-- `event_loop_thread_pool` without a main loop, started; a loop is its index in `m_loops`. -/
structure EventLoopThreadPool where
  threadNum : ℤ
  next : ℕ := 0

/-- `event_loop_thread_pool::get_next_loop`. -/
def EventLoopThreadPool.getNextLoop (pool : EventLoopThreadPool) :
    Option ℕ × EventLoopThreadPool :=
  if pool.threadNum ≤ 0 then (none, pool)
  else
    let next := if (pool.next : ℤ) ≥ pool.threadNum then 0 else pool.next
    (some next, { pool with next := next + 1 })

/-- The pool has served `i` calls; the index is put back to 0 only by the next call. -/
structure EventLoopThreadPool.Turn (pool : EventLoopThreadPool) (n i : ℕ) : Prop where
  pos : 0 < n
  threadNum : pool.threadNum = n
  le : pool.next ≤ n
  mod : pool.next % n = i % n

/-- The calls are served in turn. -/
theorem EventLoopThreadPool.Turn.getNextLoop {pool : EventLoopThreadPool} {n i : ℕ}
    (h : pool.Turn n i) :
    pool.getNextLoop.1 = some (i % n) ∧ pool.getNextLoop.2.Turn n (i + 1) := by
  obtain ⟨hpos, hnum, hle, hmod⟩ := h
  have hn : ¬ pool.threadNum ≤ 0 := by omega
  have hnext : (if (pool.next : ℤ) ≥ pool.threadNum then 0 else pool.next) = i % n := by
    rw [← hmod]
    split_ifs with hge
    · have : pool.next = n := by omega
      rw [this, Nat.mod_self]
    · exact (Nat.mod_eq_of_lt (by omega)).symm
  rw [EventLoopThreadPool.getNextLoop, if_neg hn, hnext]
  refine ⟨rfl, hpos, hnum, Nat.mod_lt i hpos, ?_⟩
  rw [Nat.mod_add_mod]

/-! ## The rows -/

/-- The primary key of `ServerCallStatus`, as `store` prints it. -/
structure CallKey where
  modid : Int32
  cmdid : Int32
  ip : UInt32
  port : UInt32
  caller : UInt32
  deriving DecidableEq

/-- The other columns of `ServerCallStatus`. -/
structure CallStatus where
  succCnt : UInt32
  errCnt : UInt32
  ts : UInt32
  overload : Int32
  deriving DecidableEq

/-- `ServerCallStatus`. -/
abbrev ServerCallStatus := CallKey → Option CallStatus

/-- `store_reporter::store`: the upserts, one for each result. -/
def store (req : ReportStatusRequest) : List (CallKey × CallStatus) :=
  req.results.map fun result =>
    ({ modid := req.modid, cmdid := req.cmdid, ip := result.ip.toUInt32,
       port := result.port.toUInt32, caller := req.caller.toUInt32 },
     { succCnt := result.succ, errCnt := result.err, ts := req.ts,
       overload := if result.overload then 1 else 0 })

/-! ## The reporter -/

/-- The reporter: the pool, the tasks of each loop with the upserts that are left of each, and the
table. -/
structure ReporterServer where
  pool : EventLoopThreadPool
  tasks : ℕ → List (List (CallKey × CallStatus)) := fun _ => []
  table : ServerCallStatus

/-- The reporter after `start`. -/
def start (threadNum : ℤ) (table : ServerCallStatus) : ReporterServer :=
  { pool := { threadNum := threadNum }, table := table }

/-- What happens in the reporter. -/
inductive StoreEvent
  /-- A request is handled. -/
  | handle (req : ReportStatusRequest)
  /-- A loop makes the next upsert of its task, or is done with it. -/
  | run (loop : ℕ)
  deriving DecidableEq

/-- The request that is handled. -/
def StoreEvent.request : StoreEvent → Option ReportStatusRequest
  | handle req => some req
  | run _ => none

namespace ReporterServer

/-- `get_report_status`. -/
def getReportStatus (s : ReporterServer) (req : ReportStatusRequest) : ReporterServer :=
  match s.pool.getNextLoop with
  | (none, pool) => { s with pool := pool }
  | (some loop, pool) =>
    { s with pool := pool, tasks := Function.update s.tasks loop (s.tasks loop ++ [store req]) }

/-- A step, with the upsert it makes and the loop that makes it. -/
def step (s : ReporterServer) :
    StoreEvent → Except Disabled (Option (ℕ × CallKey × CallStatus) × ReporterServer)
  | .handle req => .ok (none, s.getReportStatus req)
  | .run loop =>
    match s.tasks loop with
    | [] => .error .disabled
    | [] :: tasks => .ok (none, { s with tasks := Function.update s.tasks loop tasks })
    | (p :: ps) :: tasks =>
      .ok (some (loop, p), { s with
        tasks := Function.update s.tasks loop (ps :: tasks)
        table := write s.table p })

/-- All tasks have run. -/
def Drained (s : ReporterServer) : Prop := ∀ loop, s.tasks loop = []

end ReporterServer

/-- In every run that handles the requests, and however the loops run their tasks, once all tasks
have run the rows hold the last results. -/
def Stored (threadNum : ℤ) (reqs : List ReportStatusRequest) : Prop :=
  ∀ (table : ServerCallStatus) (es : List StoreEvent)
    (outs : List (Option (ℕ × CallKey × CallStatus))) (s : ReporterServer),
    run ReporterServer.step (start threadNum table) es = .ok (outs, s) →
    es.filterMap StoreEvent.request = reqs → s.Drained →
    ∀ (k : CallKey) (v : CallStatus), lastWrite k (reqs.flatMap store) = some v → s.table k = some v

/-- The upserts that go to a loop of `n`, from the `i`-th request on. -/
def assigned (n loop : ℕ) : ℕ → List ReportStatusRequest → List (CallKey × CallStatus)
  | _, [] => []
  | i, req :: reqs => (if i % n = loop then store req else []) ++ assigned n loop (i + 1) reqs

/-- Every upsert goes to a loop. -/
theorem exists_mem_assigned {n : ℕ} {reqs : List ReportStatusRequest} {p : CallKey × CallStatus}
    (i : ℕ) (hp : p ∈ reqs.flatMap store) : ∃ loop, p ∈ assigned n loop i reqs := by
  induction reqs generalizing i with
  | nil => cases hp
  | cons req reqs ih =>
    rw [List.flatMap_cons, List.mem_append] at hp
    rcases hp with hp | hp
    · refine ⟨i % n, ?_⟩
      rw [assigned, if_pos rfl]
      exact List.mem_append_left _ hp
    · obtain ⟨loop, hloop⟩ := ih (i + 1) hp
      refine ⟨loop, ?_⟩
      rw [assigned]
      exact List.mem_append_right _ hloop

/-- A loop that is none of the `n` gets nothing. -/
theorem assigned_eq_nil {n loop : ℕ} (hn : 0 < n) (hloop : n ≤ loop) (i : ℕ)
    (reqs : List ReportStatusRequest) : assigned n loop i reqs = [] := by
  induction reqs generalizing i with
  | nil => rfl
  | cons req reqs ih =>
    have hne : i % n ≠ loop := by
      have := Nat.mod_lt i hn
      omega
    rw [assigned, if_neg hne, ih, List.append_nil]

/-- All upserts go to the one loop there is. -/
theorem assigned_one (i : ℕ) (reqs : List ReportStatusRequest) :
    assigned 1 0 i reqs = reqs.flatMap store := by
  induction reqs generalizing i with
  | nil => rfl
  | cons req reqs ih => rw [assigned, if_pos (Nat.mod_one i), ih, List.flatMap_cons]

namespace ReporterServer

/-! ## What the loops have done and have left -/

/-- The upserts that a loop has left. -/
def pending (s : ReporterServer) (loop : ℕ) : List (CallKey × CallStatus) := (s.tasks loop).flatten

/-- The upserts made in a run, each with its loop. -/
abbrev made (outs : List (Option (ℕ × CallKey × CallStatus))) : List (ℕ × CallKey × CallStatus) :=
  outs.reduceOption

/-- A request goes to the loop whose turn it is. -/
theorem getReportStatus_of_turn {s : ReporterServer} {n i : ℕ} (h : s.pool.Turn n i)
    (req : ReportStatusRequest) :
    s.getReportStatus req = { s with
      pool := s.pool.getNextLoop.2
      tasks := Function.update s.tasks (i % n) (s.tasks (i % n) ++ [store req]) } := by
  have hpair : s.pool.getNextLoop = (some (i % n), s.pool.getNextLoop.2) :=
    Prod.ext h.getNextLoop.1 rfl
  rw [getReportStatus, hpair]

/-- Handling a request appends its upserts to those of the loop whose turn it is. -/
theorem pending_getReportStatus {s : ReporterServer} {n i : ℕ} (h : s.pool.Turn n i)
    (req : ReportStatusRequest) :
    (s.getReportStatus req).pool.Turn n (i + 1) ∧ (s.getReportStatus req).table = s.table ∧
      ∀ loop, (s.getReportStatus req).pending loop =
        s.pending loop ++ if i % n = loop then store req else [] := by
  rw [getReportStatus_of_turn h]
  refine ⟨h.getNextLoop.2, rfl, fun loop => ?_⟩
  by_cases hloop : i % n = loop
  · subst hloop
    simp [pending]
  · simp [pending, hloop, Function.update_of_ne (Ne.symm hloop)]

/-- A loop makes the first of the upserts it has left, or none. -/
theorem pending_run {s s' : ReporterServer} {loop : ℕ} {o : Option (ℕ × CallKey × CallStatus)}
    (h : step s (.run loop) = .ok (o, s')) :
    s'.pool = s.pool ∧ s'.table = writeAll s.table (o.toList.map Prod.snd) ∧
      ∀ l, s.pending l = part l o.toList ++ s'.pending l := by
  simp only [step] at h
  split at h
  · cases h
  · next tasks htasks =>
    cases h
    refine ⟨rfl, rfl, fun l => ?_⟩
    by_cases hl : l = loop
    · subst hl
      simp [pending, htasks]
    · simp [pending, Function.update_of_ne hl]
  · next p ps tasks htasks =>
    cases h
    refine ⟨rfl, rfl, fun l => ?_⟩
    by_cases hl : l = loop
    · subst hl
      simp [pending, htasks, part]
    · simp [pending, Function.update_of_ne hl, part, Ne.symm hl]

/-- **Runs**: what a loop has made and has left is what it had and what has gone to it since, in
order, and the table holds what has been made. -/
theorem pending_of_run {es : List StoreEvent} {s s' : ReporterServer} {n i : ℕ}
    {outs : List (Option (ℕ × CallKey × CallStatus))} (hturn : s.pool.Turn n i)
    (h : run step s es = .ok (outs, s')) :
    s'.table = writeAll s.table ((made outs).map Prod.snd) ∧
      ∀ loop, s.pending loop ++ assigned n loop i (es.filterMap StoreEvent.request) =
        part loop (made outs) ++ s'.pending loop := by
  induction es generalizing s outs i with
  | nil =>
    obtain ⟨rfl, rfl⟩ : [] = outs ∧ s = s' := by simpa using h
    exact ⟨rfl, fun loop => List.append_nil _⟩
  | cons e es ih =>
    obtain ⟨o, s₁, os, h₁, h₂, rfl⟩ := run_cons_eq_ok.mp h
    cases e with
    | handle req =>
      obtain ⟨rfl, rfl⟩ : none = o ∧ s.getReportStatus req = s₁ := by simpa [step] using h₁
      obtain ⟨hturn', htable, hpending⟩ := pending_getReportStatus hturn req
      obtain ⟨htable', hpending'⟩ := ih hturn' h₂
      refine ⟨by rw [htable', htable]; rfl, fun loop => ?_⟩
      have hloop := hpending' loop
      rw [hpending loop, List.append_assoc] at hloop
      exact hloop
    | run loop' =>
      obtain ⟨hpool, htable, hpending⟩ := pending_run h₁
      obtain ⟨htable', hpending'⟩ := ih (hpool ▸ hturn) h₂
      have hmade : made (o :: os) = o.toList ++ made os := by cases o <;> rfl
      refine ⟨?_, fun loop => ?_⟩
      · rw [htable', htable, hmade, List.map_append, writeAll_append]
      · have hloop := hpending' loop
        rw [hpending loop, hmade, part_append, List.append_assoc, List.append_assoc, ← hloop]
        rfl

/-! ## Schedules -/

/-- Requests are handled while the loops wait. -/
theorem run_handle {s : ReporterServer} {n i : ℕ} (hturn : s.pool.Turn n i)
    (reqs : List ReportStatusRequest) :
    ∃ outs s', run step s (reqs.map .handle) = .ok (outs, s') ∧
      (∀ loop, s'.pending loop = s.pending loop ++ assigned n loop i reqs) ∧
      ∀ loop, n ≤ loop → s'.tasks loop = s.tasks loop := by
  induction reqs generalizing s i with
  | nil => exact ⟨[], s, rfl, fun loop => (List.append_nil _).symm, fun loop _ => rfl⟩
  | cons req reqs ih =>
    obtain ⟨hturn', -, hpending⟩ := pending_getReportStatus hturn req
    obtain ⟨outs, s', hrun, hs', hothers⟩ := ih hturn'
    refine ⟨none :: outs, s', run_cons_eq_ok.mpr ⟨none, _, outs, rfl, hrun, rfl⟩, fun loop => ?_,
      fun loop hloop => ?_⟩
    · rw [hs' loop, hpending loop, assigned, List.append_assoc]
    · have hne : loop ≠ i % n := by
        have := Nat.mod_lt i hturn.pos
        omega
      rw [hothers loop hloop, getReportStatus_of_turn hturn]
      exact Function.update_of_ne hne _ _

/-- A loop finishes the task it is in. -/
theorem run_task {s : ReporterServer} {loop : ℕ} {ps : List (CallKey × CallStatus)}
    {tasks : List (List (CallKey × CallStatus))} (h : s.tasks loop = ps :: tasks) :
    ∃ es outs, es.filterMap StoreEvent.request = [] ∧ run step s es = .ok (outs, { s with
      tasks := Function.update s.tasks loop tasks
      table := writeAll s.table ps }) := by
  induction ps generalizing s with
  | nil =>
    have hstep : step s (.run loop) =
        .ok (none, { s with tasks := Function.update s.tasks loop tasks }) := by
      simp only [step, h]
    exact ⟨[.run loop], [none], rfl, run_cons_eq_ok.mpr ⟨_, _, [], hstep, rfl, rfl⟩⟩
  | cons p ps ih =>
    have hstep : step s (.run loop) = .ok (some (loop, p), { s with
        tasks := Function.update s.tasks loop (ps :: tasks)
        table := write s.table p }) := by
      simp only [step, h]
    obtain ⟨es, outs, hes, hrun⟩ := ih (s := { s with
      tasks := Function.update s.tasks loop (ps :: tasks)
      table := write s.table p }) (Function.update_self ..)
    refine ⟨.run loop :: es, some (loop, p) :: outs, hes,
      run_cons_eq_ok.mpr ⟨_, _, outs, hstep, ?_, rfl⟩⟩
    rw [hrun, Function.update_idem]
    rfl

/-- A loop runs all its tasks. -/
theorem run_loop (s : ReporterServer) (loop : ℕ) :
    ∃ es outs, es.filterMap StoreEvent.request = [] ∧ run step s es = .ok (outs, { s with
      tasks := Function.update s.tasks loop []
      table := writeAll s.table (s.pending loop) }) := by
  obtain ⟨tasks, htasks⟩ : ∃ tasks, s.tasks loop = tasks := ⟨_, rfl⟩
  induction tasks generalizing s with
  | nil =>
    refine ⟨[], [], rfl, ?_⟩
    rw [run_nil, pending, htasks, ← htasks, Function.update_eq_self, htasks]
    rfl
  | cons ps tasks ih =>
    obtain ⟨es, outs, hes, hrun⟩ := run_task htasks
    obtain ⟨es', outs', hes', hrun'⟩ := ih { s with
      tasks := Function.update s.tasks loop tasks
      table := writeAll s.table ps } (Function.update_self ..)
    refine ⟨es ++ es', outs ++ outs', by rw [List.filterMap_append, hes, hes']; rfl, ?_⟩
    rw [run_append_ok hrun hrun', Function.update_idem]
    simp only [pending, htasks, Function.update_self, List.flatten_cons, writeAll_append]

/-- Loops run all their tasks, one loop after the other. -/
theorem run_loops (s : ReporterServer) (loops : List ℕ) :
    ∃ es outs s', es.filterMap StoreEvent.request = [] ∧ run step s es = .ok (outs, s') ∧
      ∀ loop, s'.tasks loop = if loop ∈ loops then [] else s.tasks loop := by
  induction loops generalizing s with
  | nil => exact ⟨[], [], s, rfl, rfl, fun loop => (if_neg List.not_mem_nil).symm⟩
  | cons loop' loops ih =>
    obtain ⟨es, outs, hes, hrun⟩ := run_loop s loop'
    obtain ⟨es', outs', s', hes', hrun', hs'⟩ := ih { s with
      tasks := Function.update s.tasks loop' []
      table := writeAll s.table (s.pending loop') }
    refine ⟨es ++ es', outs ++ outs', s', by rw [List.filterMap_append, hes, hes']; rfl,
      run_append_ok hrun hrun', fun loop => ?_⟩
    rw [hs' loop]
    by_cases hloop : loop = loop'
    · subst hloop
      simp
    · simp [hloop]

end ReporterServer

/-! ## Which results are stored -/

open ReporterServer

/-- The first request finds the pool as `start` leaves it. -/
theorem turn_start {threadNum : ℤ} (h : 0 < threadNum) (table : ServerCallStatus) :
    (start threadNum table).pool.Turn threadNum.toNat 0 :=
  ⟨by omega, (Int.toNat_of_nonneg (le_of_lt h)).symm, Nat.zero_le _, rfl⟩

/-- The last results are stored if no loop has an older result for its last one. -/
theorem stored_of_assigned {threadNum : ℤ} {reqs : List ReportStatusRequest}
    (h : ∀ k v, lastWrite k (reqs.flatMap store) = some v → 0 < threadNum ∧
      ∀ loop v', lastWrite k (assigned threadNum.toNat loop 0 reqs) = some v' → v' = v) :
    Stored threadNum reqs := by
  intro table es outs s hrun hreqs hdrained k v hlast
  obtain ⟨hpos, hloops⟩ := h k v hlast
  obtain ⟨htable, hparts⟩ := pending_of_run (turn_start hpos table) hrun
  have hpart : ∀ loop, part loop (made outs) = assigned threadNum.toNat loop 0 reqs := by
    intro loop
    have hloop := hparts loop
    rw [hreqs, pending, pending, hdrained loop, List.flatten_nil, List.append_nil] at hloop
    exact hloop.symm
  have hsome : ∃ p ∈ made outs, p.2.1 = k := by
    have hne : lastWrite k (reqs.flatMap store) ≠ none := by
      rw [hlast]
      exact Option.some_ne_none v
    rw [ne_eq, lastWrite_eq_none_iff] at hne
    push Not at hne
    obtain ⟨p, hp, hk⟩ := hne
    obtain ⟨loop, hmem⟩ := exists_mem_assigned 0 hp
    exact ⟨(loop, p), mem_part_iff.mp (hpart loop ▸ hmem), hk⟩
  rw [htable, writeAll_apply, lastWrite_eq_some hsome fun loop v' hv' =>
    hloops loop v' (hpart loop ▸ hv'), Option.some_or]

/-- With one thread they are. -/
theorem stored_of_one (reqs : List ReportStatusRequest) : Stored 1 reqs := by
  refine stored_of_assigned fun k v hlast => ⟨Int.one_pos, fun loop v' hv' => ?_⟩
  cases loop with
  | zero =>
    rw [show (1 : ℤ).toNat = 1 from rfl, assigned_one, hlast] at hv'
    exact (Option.some.inj hv').symm
  | succ loop =>
    rw [assigned_eq_nil (by decide) (by simp) 0 reqs] at hv'
    cases hv'

/-- Without threads nothing is done. -/
theorem exists_run_of_no_thread {threadNum : ℤ} (h : threadNum ≤ 0) (table : ServerCallStatus)
    (reqs : List ReportStatusRequest) :
    ∃ outs, run ReporterServer.step (start threadNum table) (reqs.map .handle) =
      .ok (outs, start threadNum table) := by
  induction reqs with
  | nil => exact ⟨[], rfl⟩
  | cons req reqs ih =>
    obtain ⟨outs, hrun⟩ := ih
    have hnone : (start threadNum table).getReportStatus req = start threadNum table := by
      have hget : (start threadNum table).pool.getNextLoop = (none, ⟨threadNum, 0⟩) := if_pos h
      rw [getReportStatus, hget]
      rfl
    refine ⟨none :: outs, run_cons_eq_ok.mpr ⟨none, _, outs, ?_, hrun, rfl⟩⟩
    rw [ReporterServer.step, hnone]

theorem filterMap_request_handle (reqs : List ReportStatusRequest) :
    (reqs.map StoreEvent.handle).filterMap StoreEvent.request = reqs := by
  rw [List.filterMap_map]
  exact List.filterMap_some

/-- A loop may be the last to run its tasks, after all requests and all other loops. -/
theorem exists_run_last {threadNum : ℤ} (hpos : 0 < threadNum) (reqs : List ReportStatusRequest)
    (loop : ℕ) :
    ∃ es outs s, run ReporterServer.step (start threadNum fun _ => none) es = .ok (outs, s) ∧
      es.filterMap StoreEvent.request = reqs ∧ s.Drained ∧
      ∀ k v, lastWrite k (assigned threadNum.toNat loop 0 reqs) = some v → s.table k = some v := by
  obtain ⟨outs, s, hrun, hpending, hothers⟩ := run_handle (turn_start hpos fun _ => none) reqs
  obtain ⟨es₁, outs₁, s₁, hes₁, hrun₁, hs₁⟩ :=
    run_loops s ((List.range threadNum.toNat).erase loop)
  obtain ⟨es₂, outs₂, hes₂, hrun₂⟩ := run_loop s₁ loop
  refine ⟨_, _, _, run_append_ok hrun (run_append_ok hrun₁ hrun₂), ?_, fun loop' => ?_,
    fun k v hv => ?_⟩
  · rw [List.filterMap_append, List.filterMap_append, hes₁, hes₂, filterMap_request_handle]
    exact List.append_nil reqs
  · change Function.update s₁.tasks loop [] loop' = []
    by_cases hloop : loop' = loop
    · rw [hloop, Function.update_self]
    · rw [Function.update_of_ne hloop, hs₁ loop']
      split_ifs with hmem
      · rfl
      · rw [List.mem_erase_of_ne hloop, List.mem_range, not_lt] at hmem
        exact hothers loop' hmem
  · have hmine : s₁.pending loop = assigned threadNum.toNat loop 0 reqs := by
      rw [pending, hs₁ loop, if_neg List.nodup_range.not_mem_erase]
      exact hpending loop
    change writeAll s₁.table (s₁.pending loop) k = some v
    rw [hmine, writeAll_apply, hv, Option.some_or]

/-- **The stored call status is the last one reported**, whatever the order in which the loops run
their tasks, if and only if there are threads, and a loop that has results of a key has for its last
one what the last result of that key says. -/
theorem stored_iff (threadNum : ℤ) (reqs : List ReportStatusRequest) :
    Stored threadNum reqs ↔ ∀ k v, lastWrite k (reqs.flatMap store) = some v → 0 < threadNum ∧
      ∀ loop v', lastWrite k (assigned threadNum.toNat loop 0 reqs) = some v' → v' = v := by
  refine ⟨fun hstored k v hlast => ?_, stored_of_assigned⟩
  by_cases hpos : 0 < threadNum
  · refine ⟨hpos, fun loop v' hv' => ?_⟩
    obtain ⟨es, outs, s, hrun, hreqs, hdrained, htable⟩ := exists_run_last hpos reqs loop
    have hv := hstored _ es outs s hrun hreqs hdrained k v hlast
    exact Option.some.inj ((htable k v' hv').symm.trans hv)
  · obtain ⟨outs, hrun⟩ := exists_run_of_no_thread (not_lt.mp hpos) (fun _ => none) reqs
    exact nomatch hstored _ _ _ _ hrun (filterMap_request_handle reqs) (fun _ => rfl) k v hlast

/-- Of two reports of one host handled by two threads, the second is stored, and then the first. -/
theorem not_stored : ¬ Stored 3
    [⟨1, 1, 0, [⟨0, 80, 1, 0, false⟩], 10⟩, ⟨1, 1, 0, [⟨0, 80, 2, 0, false⟩], 20⟩] := by
  intro h
  have hrow := h (fun _ => none)
    [.handle ⟨1, 1, 0, [⟨0, 80, 1, 0, false⟩], 10⟩, .handle ⟨1, 1, 0, [⟨0, 80, 2, 0, false⟩], 20⟩,
      .run 1, .run 1, .run 0, .run 0] _ _ rfl rfl ?_ ⟨1, 1, 0, 80, 0⟩ ⟨2, 0, 20, 0⟩ (by decide)
  · revert hrow
    decide
  · intro loop
    rcases loop with _ | _ | loop
    · rfl
    · rfl
    · rfl

end Lars.Reporter
