import Lars.Foundations.LastWrite
import Lars.Reactor.TcpServer

/-!
# The bookkeeping of connections

The deletion of a connection is queued under its descriptor, and runs in another thread at some
later time. It takes the right connection all the same: until it has run, `m_conns` holds a pointer
to the connection, so its descriptor is not closed and the kernel gives it to no other.

Every task finds the connection whose `close` has queued it, and takes out no other; an `accept`
overwrites no entry; and a connection that is closed has one task (`bookkeeping_of_run`).
-/

namespace Lars.Reactor

open Machine

namespace TcpServer

variable {ℓ : Type}

/-- The connection is in `m_conns`, or is about to be put there. -/
def Entered (s : TcpServer ℓ) (conn : ℕ) (fd : ℤ) : Prop :=
  s.mConns fd = some conn ∨ s.main = .accepting conn

/-- The connection has been closed; it may have been destroyed since. -/
def Closed (s : TcpServer ℓ) (conn : ℕ) : Prop :=
  conn < s.next ∧ ∀ o, s.objects conn = some o → o.state ≠ .connected

/-- The objects whose deletion has been queued, by the tasks that have run and those that wait. -/
def closers (s : TcpServer ℓ) : List ℕ :=
  s.ran.map (fun d => d.task.closer) ++ s.deleteTasks.map DeleteTask.closer

/-- What holds of the books at all times. -/
structure Booked (s : TcpServer ℓ) : Prop where
  lt : ∀ i o, s.objects i = some o → i < s.next
  isOpen : ∀ i o, s.objects i = some o → o.fd ∈ s.openFds
  unique : ∀ i j o p, s.objects i = some o → s.objects j = some p → o.fd = p.fd → i = j
  entry : ∀ fd i, s.mConns fd = some i → ∃ o, s.objects i = some o ∧ o.fd = fd
  accepting : ∀ i, s.main = .accepting i → ∃ o, s.objects i = some o ∧ s.mConns o.fd = none
  connected : ∀ i o, s.objects i = some o → o.state = .connected → s.Entered i o.fd
  task : ∀ t ∈ s.deleteTasks, ∃ o, s.objects t.closer = some o ∧ o.fd = t.fd ∧
    o.state ≠ .connected ∧ s.Entered t.closer t.fd
  nodup : s.closers.Nodup
  closed : ∀ i, i ∈ s.closers ↔ s.Closed i
  found : ∀ d ∈ s.ran, d.found = some d.task.closer

theorem booked_start (maxConnNums : ℕ) (loops : ℓ → EventLoop ConnCallback) :
    (start maxConnNums loops).Booked where
  lt i o h := by cases h
  isOpen i o h := by cases h
  unique i j o p h := by cases h
  entry fd i h := by cases h
  accepting i h := by cases h
  connected i o h := by cases h
  task t h := absurd h List.not_mem_nil
  nodup := List.nodup_nil
  closed i := iff_of_false List.not_mem_nil fun h => Nat.not_lt_zero i h.1
  found d h := absurd h List.not_mem_nil

variable {s s' : TcpServer ℓ}

/-- While nothing is being accepted, a connection that has been entered is in `m_conns`. -/
theorem Entered.mConns_eq {i : ℕ} {fd : ℤ} (h : s.Entered i fd) (hmain : s.main = .idle) :
    s.mConns fd = some i :=
  h.resolve_right fun hacc => by
    rw [hmain] at hacc
    cases hacc

/-- What the loops' threads do among themselves is not in the books. -/
theorem Booked.served (hs : s.Booked) (loops : ℓ → EventLoop ConnCallback)
    (tables : ℓ → ℤ → Option ℕ) (listenTasks : ℓ → List ℕ) (held : Finset ℕ) :
    Booked { s with loops := loops, tables := tables, listenTasks := listenTasks, held := held } :=
  ⟨hs.lt, hs.isOpen, hs.unique, hs.entry, hs.accepting, hs.connected, hs.task, hs.nodup, hs.closed,
    hs.found⟩

/-- A descriptor that is not open has no entry. -/
theorem Booked.entry_eq_none (hs : s.Booked) {fd : ℤ} (hfd : fd ∉ s.openFds) :
    s.mConns fd = none := by
  cases h : s.mConns fd with
  | none => rfl
  | some i =>
    obtain ⟨o, ho, rfl⟩ := hs.entry fd i h
    exact absurd (hs.isOpen i o ho) hfd

/-- The entry of the connection accepted is its own, and no other is touched. -/
theorem Booked.store (hs : s.Booked) {conn : ℕ} {o : ConnObject ℓ}
    (hmain : s.main = .accepting conn) (ho : s.objects conn = some o) :
    Booked { s with mConns := Function.update s.mConns o.fd (some conn), main := .idle } := by
  have hentered : ∀ {i p}, s.objects i = some p → s.Entered i p.fd →
      Function.update s.mConns o.fd (some conn) p.fd = some i := by
    intro i p hp hent
    by_cases hfd : p.fd = o.fd
    · rw [hfd, Function.update_self, hs.unique i conn p o hp ho hfd]
    · rw [Function.update_of_ne hfd]
      rcases hent with hent | hent
      · exact hent
      · obtain rfl : conn = i := MainAt.accepting.inj (hmain.symm.trans hent)
        rw [ho] at hp
        cases hp
        exact absurd rfl hfd
  constructor
  case lt => exact hs.lt
  case isOpen => exact hs.isOpen
  case unique => exact hs.unique
  case entry =>
    intro fd i h
    rcases update_eq_some.mp h with ⟨rfl, ⟨⟩⟩ | ⟨-, h⟩
    · exact ⟨o, ho, rfl⟩
    · exact hs.entry fd i h
  case accepting =>
    intro i h
    cases h
  case connected => exact fun i p hp hstate => Or.inl (hentered hp (hs.connected i p hp hstate))
  case task =>
    intro t ht
    obtain ⟨p, hp, hpfd, hstate, hent⟩ := hs.task t ht
    rw [← hpfd] at hent
    exact ⟨p, hp, hpfd, hstate, Or.inl (hpfd ▸ hentered hp hent)⟩
  case nodup => exact hs.nodup
  case closed => exact hs.closed
  case found => exact hs.found

/-- A task takes out the connection that has queued it, and no other. -/
theorem Booked.deleteConnInloop (hs : s.Booked) {task : DeleteTask} {tasks : List DeleteTask}
    (hmain : s.main = .idle) (htasks : s.deleteTasks = task :: tasks) :
    Booked { s.deleteConnInloop task with deleteTasks := tasks } := by
  have hmem : ∀ {t}, t ∈ tasks → t ∈ s.deleteTasks := fun ht => by
    rw [htasks]
    exact List.mem_cons_of_mem _ ht
  obtain ⟨o, ho, hofd, hostate, hent⟩ :=
    hs.task task (by rw [htasks]; exact List.mem_cons_self)
  have hfound : s.mConns task.fd = some task.closer := hent.mConns_eq hmain
  have hclosers : closers { s.deleteConnInloop task with deleteTasks := tasks } = s.closers := by
    rw [closers, closers, htasks, TcpServer.deleteConnInloop, List.map_append, List.append_assoc]
    rfl
  -- the entries of other connections are under other descriptors
  have hother : ∀ {i p}, s.objects i = some p → i ≠ task.closer → s.Entered i p.fd →
      Function.update s.mConns task.fd none p.fd = some i := by
    intro i p hp hne h
    rw [Function.update_of_ne, h.mConns_eq hmain]
    intro hfd
    exact hne (hs.unique i task.closer p o hp ho (hfd.trans hofd.symm))
  constructor
  case lt => exact hs.lt
  case isOpen => exact hs.isOpen
  case unique => exact hs.unique
  case entry =>
    intro fd i h
    exact hs.entry fd i (update_none_eq_some.mp h).2
  case accepting =>
    intro i h
    have h : s.main = .accepting i := h
    rw [hmain] at h
    cases h
  case connected =>
    intro i p hp hpstate
    have hp : s.objects i = some p := hp
    have hne : i ≠ task.closer := by
      rintro rfl
      rw [ho] at hp
      cases hp
      exact hostate hpstate
    exact Or.inl (hother hp hne (hs.connected i p hp hpstate))
  case task =>
    intro t ht
    obtain ⟨p, hp, hpfd, hpstate, hent⟩ := hs.task t (hmem ht)
    have hne : t.closer ≠ task.closer := by
      intro heq
      have hnodup := (List.nodup_append.mp hs.nodup).2.1
      rw [htasks, List.map_cons, List.nodup_cons] at hnodup
      exact hnodup.1 (heq ▸ List.mem_map.mpr ⟨t, ht, rfl⟩)
    rw [← hpfd] at hent ⊢
    exact ⟨p, hp, rfl, hpstate, Or.inl (hother hp hne hent)⟩
  case nodup =>
    rw [hclosers]
    exact hs.nodup
  case closed =>
    intro i
    rw [hclosers]
    exact hs.closed i
  case found =>
    intro d hd
    rcases List.mem_append.mp hd with hd | hd
    · exact hs.found d hd
    · rw [List.mem_singleton.mp hd]
      exact hfound

section Steps

variable [DecidableEq ℓ]

/-- An object after `newConn` is the new one or an old one. -/
theorem Booked.objects_newConn (hs : s.Booked) {fd : ℤ} {loop : ℓ} {i : ℕ} {o : ConnObject ℓ}
    (h : (s.newConn fd loop).objects i = some o) :
    i = s.next ∧ o = { fd, loop } ∨ i < s.next ∧ s.objects i = some o := by
  rcases update_eq_some.mp h with ⟨hi, ho⟩ | ⟨-, h⟩
  · exact Or.inl ⟨hi, (Option.some.inj ho).symm⟩
  · exact Or.inr ⟨hs.lt i o h, h⟩

theorem Booked.objects_newConn_old (hs : s.Booked) {fd : ℤ} {loop : ℓ} {i : ℕ} {o : ConnObject ℓ}
    (h : s.objects i = some o) : (s.newConn fd loop).objects i = some o :=
  (Function.update_of_ne (Nat.ne_of_lt (hs.lt i o h)) _ _).trans h

theorem Booked.newConn (hs : s.Booked) {fd : ℤ} (hmain : s.main = .idle) (hfd : fd ∉ s.openFds)
    (loop : ℓ) : (s.newConn fd loop).Booked := by
  have hentered : ∀ {i fd'}, s.Entered i fd' → (s.newConn fd loop).Entered i fd' :=
    fun h => Or.inl (h.mConns_eq hmain)
  constructor
  case lt =>
    intro i o h
    rcases hs.objects_newConn h with ⟨rfl, -⟩ | ⟨hi, -⟩
    · exact Nat.lt_succ_self _
    · exact Nat.lt_succ_of_lt hi
  case isOpen =>
    intro i o h
    rcases hs.objects_newConn h with ⟨-, rfl⟩ | ⟨-, ho⟩
    · exact Finset.mem_insert_self _ _
    · exact Finset.mem_insert_of_mem (hs.isOpen i o ho)
  case unique =>
    intro i j o p hi hj hfds
    rcases hs.objects_newConn hi with ⟨rfl, rfl⟩ | ⟨-, ho⟩ <;>
      rcases hs.objects_newConn hj with ⟨rfl, rfl⟩ | ⟨-, hp⟩
    · rfl
    · have hfds : fd = p.fd := hfds
      exact absurd (hfds ▸ hs.isOpen j p hp) hfd
    · have hfds : o.fd = fd := hfds
      exact absurd (hfds ▸ hs.isOpen i o ho) hfd
    · exact hs.unique i j o p ho hp hfds
  case entry =>
    intro fd' i h
    obtain ⟨o, ho, hofd⟩ := hs.entry fd' i h
    exact ⟨o, hs.objects_newConn_old ho, hofd⟩
  case accepting =>
    intro i h
    obtain rfl : s.next = i := MainAt.accepting.inj h
    exact ⟨_, Function.update_self _ _ _, hs.entry_eq_none hfd⟩
  case connected =>
    intro i o h hstate
    rcases hs.objects_newConn h with ⟨rfl, -⟩ | ⟨-, ho⟩
    · exact Or.inr rfl
    · exact hentered (hs.connected i o ho hstate)
  case task =>
    intro t ht
    obtain ⟨o, ho, hofd, hstate, hent⟩ := hs.task t ht
    exact ⟨o, hs.objects_newConn_old ho, hofd, hstate, hentered hent⟩
  case nodup => exact hs.nodup
  case closed =>
    intro i
    refine (hs.closed i).trans ⟨fun h => ⟨Nat.lt_succ_of_lt h.1, fun o ho => ?_⟩, fun h => ?_⟩
    · rcases hs.objects_newConn ho with ⟨rfl, -⟩ | ⟨-, ho⟩
      · exact absurd h.1 (Nat.lt_irrefl _)
      · exact h.2 o ho
    · have hne : i ≠ s.next := by
        rintro rfl
        exact h.2 _ (Function.update_self _ _ _) rfl
      have hlt := h.1
      exact ⟨lt_of_le_of_ne (Nat.le_of_lt_succ hlt) hne,
        fun o ho => h.2 o (hs.objects_newConn_old ho)⟩
  case found => exact hs.found

omit [DecidableEq ℓ] in
/-- An object after one has been disconnected was there before. -/
theorem objects_of_disconnect {conn : ℕ} {o : ConnObject ℓ} (ho : s.objects conn = some o)
    {i : ℕ} {p : ConnObject ℓ}
    (h : Function.update s.objects conn (some { o with state := .disconnected }) i = some p) :
    ∃ q, s.objects i = some q ∧ q.fd = p.fd ∧ (p.state = .connected → i ≠ conn ∧ q = p) := by
  rcases update_eq_some.mp h with ⟨rfl, ⟨⟩⟩ | ⟨hi, h⟩
  · exact ⟨o, ho, rfl, fun h => by cases h⟩
  · exact ⟨p, h, rfl, fun _ => ⟨hi, rfl⟩⟩

omit [DecidableEq ℓ] in
/-- An object is still there after one has been disconnected. -/
theorem objects_disconnect {conn : ℕ} {o : ConnObject ℓ} (ho : s.objects conn = some o)
    {i : ℕ} {p : ConnObject ℓ} (hp : s.objects i = some p) :
    ∃ q, Function.update s.objects conn (some { o with state := .disconnected }) i = some q ∧
      q.fd = p.fd ∧ (p.state ≠ .connected → q.state ≠ .connected) := by
  by_cases hi : i = conn
  · rw [hi, ho] at hp
    cases hp
    exact ⟨{ o with state := .disconnected }, by rw [hi, Function.update_self], rfl,
      fun _ h => by cases h⟩
  · exact ⟨p, by rw [Function.update_of_ne hi, hp], rfl, id⟩

omit [DecidableEq ℓ] in
/-- The tasks of all and one more. -/
theorem closers_append (s : TcpServer ℓ) (task : DeleteTask) :
    s.ran.map (fun d => d.task.closer) ++ (s.deleteTasks ++ [task]).map DeleteTask.closer =
      s.closers ++ [task.closer] := by
  rw [List.map_append, ← List.append_assoc]
  rfl

/-- A `close` queues the deletion if it is the first. -/
theorem Booked.close (hs : s.Booked) {conn : ℕ} {o : ConnObject ℓ} (ho : s.objects conn = some o)
    (ctl : Bool) : (s.close conn o ctl).Booked := by
  unfold TcpServer.close
  split_ifs with hstate
  · exact hs
  replace hstate : o.state = .connected := not_not.mp hstate
  have hnot : conn ∉ s.closers := fun h => ((hs.closed conn).mp h).2 o ho hstate
  constructor
  case lt =>
    intro i p hp
    obtain ⟨q, hq, -⟩ := objects_of_disconnect ho hp
    exact hs.lt i q hq
  case isOpen =>
    intro i p hp
    obtain ⟨q, hq, hfd, -⟩ := objects_of_disconnect ho hp
    exact hfd ▸ hs.isOpen i q hq
  case unique =>
    intro i j p q hp hq hfds
    obtain ⟨p', hp', hpfd, -⟩ := objects_of_disconnect ho hp
    obtain ⟨q', hq', hqfd, -⟩ := objects_of_disconnect ho hq
    exact hs.unique i j p' q' hp' hq' (hpfd.trans (hfds.trans hqfd.symm))
  case entry =>
    intro fd i h
    obtain ⟨p, hp, hpfd⟩ := hs.entry fd i h
    obtain ⟨q, hq, hqfd, -⟩ := objects_disconnect ho hp
    exact ⟨q, hq, hqfd.trans hpfd⟩
  case accepting =>
    intro i h
    obtain ⟨p, hp, hnone⟩ := hs.accepting i h
    obtain ⟨q, hq, hqfd, -⟩ := objects_disconnect ho hp
    exact ⟨q, hq, hqfd.symm ▸ hnone⟩
  case connected =>
    intro i p hp hpstate
    obtain ⟨q, hq, -, hsame⟩ := objects_of_disconnect ho hp
    obtain ⟨-, rfl⟩ := hsame hpstate
    exact hs.connected i q hq hpstate
  case task =>
    intro t ht
    rcases List.mem_append.mp ht with ht | ht
    · obtain ⟨p, hp, hpfd, hpstate, hent⟩ := hs.task t ht
      obtain ⟨q, hq, hqfd, hqstate⟩ := objects_disconnect ho hp
      exact ⟨q, hq, hqfd.trans hpfd, hqstate hpstate, hent⟩
    · obtain rfl := List.mem_singleton.mp ht
      exact ⟨_, Function.update_self _ _ _, rfl, by simp, hs.connected conn o ho hstate⟩
  case nodup =>
    change (s.ran.map _ ++ (s.deleteTasks ++ [_]).map _).Nodup
    rw [closers_append, ← List.concat_eq_append]
    exact hs.nodup.concat hnot
  case closed =>
    intro i
    change i ∈ s.ran.map _ ++ (s.deleteTasks ++ [_]).map _ ↔ _
    rw [closers_append, List.mem_append, List.mem_singleton]
    refine ⟨fun h => ?_, fun h => ?_⟩
    · rcases h with h | rfl
      · obtain ⟨hlt, hdis⟩ := (hs.closed i).mp h
        refine ⟨hlt, fun p hp hpstate => ?_⟩
        obtain ⟨q, hq, -, hsame⟩ := objects_of_disconnect ho hp
        obtain ⟨-, rfl⟩ := hsame hpstate
        exact hdis q hq hpstate
      · refine ⟨hs.lt i o ho, fun p hp hpstate => ?_⟩
        obtain ⟨q, -, -, hsame⟩ := objects_of_disconnect ho hp
        exact (hsame hpstate).1 rfl
    · by_cases hi : i = conn
      · exact Or.inr hi
      · refine Or.inl ((hs.closed i).mpr ⟨h.1, fun p hp => ?_⟩)
        exact h.2 p ((Function.update_of_ne hi _ _).trans hp)
  case found => exact hs.found

/-- An object without pointers is in no book, and disconnected. -/
theorem Booked.destroy (hs : s.Booked) {conn : ℕ} {o : ConnObject ℓ} (ho : s.objects conn = some o)
    (href : ¬ s.Referenced conn o) (ctl : Bool) : (s.destroy conn o ctl).Booked := by
  have hout : ¬ s.Entered conn o.fd := by
    rintro (h | h)
    · exact href (Or.inl h)
    · exact href (Or.inr (Or.inl h))
  have hstate : o.state ≠ .connected := fun h => hout (hs.connected conn o ho h)
  have hclose : s.close conn o ctl = s := if_pos hstate
  rw [TcpServer.destroy, hclose]
  have hold : ∀ {i p}, Function.update s.objects conn none i = some p →
      i ≠ conn ∧ s.objects i = some p := update_none_eq_some.mp
  have hnew : ∀ {i p}, s.objects i = some p → i ≠ conn →
      Function.update s.objects conn none i = some p :=
    fun hp hi => update_none_eq_some.mpr ⟨hi, hp⟩
  constructor
  case lt => exact fun i p hp => hs.lt i p (hold hp).2
  case isOpen =>
    intro i p hp
    obtain ⟨hne, hp⟩ := hold hp
    have hfd : p.fd ≠ o.fd := fun h => hne (hs.unique i conn p o hp ho h)
    dsimp only
    split_ifs
    · exact Finset.mem_erase.mpr ⟨hfd, hs.isOpen i p hp⟩
    · exact hs.isOpen i p hp
  case unique => exact fun i j p q hp hq => hs.unique i j p q (hold hp).2 (hold hq).2
  case entry =>
    intro fd i h
    obtain ⟨p, hp, rfl⟩ := hs.entry fd i h
    refine ⟨p, hnew hp ?_, rfl⟩
    rintro rfl
    rw [ho] at hp
    cases hp
    exact hout (Or.inl h)
  case accepting =>
    intro i h
    obtain ⟨p, hp, hnone⟩ := hs.accepting i h
    refine ⟨p, hnew hp ?_, hnone⟩
    rintro rfl
    exact hout (Or.inr h)
  case connected => exact fun i p hp => hs.connected i p (hold hp).2
  case task =>
    intro t ht
    obtain ⟨p, hp, hpfd, hpstate, hent⟩ := hs.task t ht
    refine ⟨p, hnew hp ?_, hpfd, hpstate, hent⟩
    intro hi
    rw [hi, ho] at hp
    cases hp
    rw [hi, ← hpfd] at hent
    exact hout hent
  case nodup => exact hs.nodup
  case closed =>
    intro i
    refine (hs.closed i).trans ⟨fun h => ⟨h.1, fun p hp => h.2 p (hold hp).2⟩, fun h => ?_⟩
    refine ⟨h.1, fun p hp => ?_⟩
    by_cases hi : i = conn
    · rw [hi, ho] at hp
      cases hp
      exact hstate
    · exact h.2 p (hnew hp hi)
  case found => exact hs.found

/-- **The step**: every step keeps the books in order. -/
theorem Made.booked {e : ServerEvent ℓ} (h : Made s e s') (hs : s.Booked) : s'.Booked := by
  cases h with
  | refuse => exact hs
  | accept hmain hfd => exact hs.newConn hmain hfd _
  | store hmain ho => exact hs.store hmain ho
  | listenRead => exact hs.served _ _ _ _
  | send => exact hs.served _ _ _ _
  | drained => exact hs.served _ _ _ _
  | close ho => exact hs.close ho _
  | deleteConnInloop hmain htasks => exact hs.deleteConnInloop hmain htasks
  | hold => exact hs.served _ _ _ _
  | release => exact hs.served _ _ _ _
  | destroy ho href => exact hs.destroy ho href _

theorem booked_of_run {maxConnNums : ℕ} {loops : ℓ → EventLoop ConnCallback}
    {es : List (ServerEvent ℓ)} {outs : List Unit}
    (h : run step (start maxConnNums loops) es = .ok (outs, s)) : s.Booked :=
  run_invariant (fun _ _ _ _ hs h => (made_of_step h).booked hs) (booked_start _ _) h

omit [DecidableEq ℓ] in
/-- A task that the main loop can run finds the connection that has queued it. -/
theorem Booked.mConns_of_task (hs : s.Booked) (hmain : s.main = .idle) {task : DeleteTask}
    (htask : task ∈ s.deleteTasks) : s.mConns task.fd = some task.closer := by
  obtain ⟨o, -, -, -, hent⟩ := hs.task task htask
  exact hent.mConns_eq hmain

omit [DecidableEq ℓ] in
/-- A task takes out the entry of the connection that has queued it, which has only one. -/
theorem Booked.mConns_deleteConnInloop (hs : s.Booked) (hmain : s.main = .idle)
    {task : DeleteTask} (htask : task ∈ s.deleteTasks) (fd : ℤ) (i : ℕ) :
    (s.deleteConnInloop task).mConns fd = some i ↔ s.mConns fd = some i ∧ i ≠ task.closer := by
  change Function.update s.mConns task.fd none fd = some i ↔ _
  rw [update_none_eq_some, and_comm]
  refine and_congr_right fun hi => not_congr ⟨?_, ?_⟩
  · rintro rfl
    exact Option.some.inj (hi.symm.trans (hs.mConns_of_task hmain htask))
  · -- another descriptor is another connection's
    rintro rfl
    obtain ⟨o, ho, hofd⟩ := hs.entry fd _ hi
    obtain ⟨p, hp, hpfd, -⟩ := hs.task task htask
    rw [hp] at ho
    cases ho
    exact hofd.symm.trans hpfd

omit [DecidableEq ℓ] in
/-- The entry made for a connection accepted overwrites none. -/
theorem Booked.mConns_store (hs : s.Booked) {conn : ℕ} {o : ConnObject ℓ}
    (hmain : s.main = .accepting conn) (ho : s.objects conn = some o) {fd : ℤ} {i : ℕ}
    (hi : s.mConns fd = some i) : Function.update s.mConns o.fd (some conn) fd = some i := by
  obtain ⟨p, hp, hnone⟩ := hs.accepting conn hmain
  rw [ho] at hp
  cases hp
  rw [Function.update_of_ne, hi]
  rintro rfl
  rw [hnone] at hi
  cases hi

omit [DecidableEq ℓ] in
/-- A connection that has been closed has one task, and no other has any. -/
theorem Booked.count_closers (hs : s.Booked) (i : ℕ) :
    s.closers.count i ≤ 1 ∧ (s.closers.count i = 1 ↔ s.Closed i) := by
  have hle : s.closers.count i ≤ 1 := List.nodup_iff_count_le_one.mp hs.nodup i
  refine ⟨hle, ?_⟩
  rw [← hs.closed i, ← List.count_pos_iff]
  omega

/-- **The bookkeeping of connections**, in every state that the threads can reach:
a task that waits finds the connection whose `close` has queued it, once the main loop runs it, and
those that have run have found theirs; the next takes out that connection and no other; an
assignment to `m_conns` overwrites no entry; and a connection is closed if and only if it has a
task, which is one. -/
theorem bookkeeping_of_run {maxConnNums : ℕ} {loops : ℓ → EventLoop ConnCallback}
    {es : List (ServerEvent ℓ)} {outs : List Unit}
    (h : run step (start maxConnNums loops) es = .ok (outs, s)) :
    (s.main = .idle → ∀ task ∈ s.deleteTasks, s.mConns task.fd = some task.closer) ∧
    (∀ d ∈ s.ran, d.found = some d.task.closer) ∧
    (∀ u s', step s .deleteConnInloop = .ok (u, s') → ∃ task tasks,
      s.deleteTasks = task :: tasks ∧ s'.ran = s.ran ++ [⟨task, some task.closer⟩] ∧
        ∀ fd i, s'.mConns fd = some i ↔ s.mConns fd = some i ∧ i ≠ task.closer) ∧
    (∀ u s', step s .store = .ok (u, s') →
      ∀ fd i, s.mConns fd = some i → s'.mConns fd = some i) ∧
    ∀ i, s.closers.count i ≤ 1 ∧ (s.closers.count i = 1 ↔ s.Closed i) := by
  have hs : s.Booked := booked_of_run h
  refine ⟨fun hmain task htask => hs.mConns_of_task hmain htask, hs.found, fun u s' hstep => ?_,
    fun u s' hstep => ?_, hs.count_closers⟩
  · cases made_of_step hstep with
    | @deleteConnInloop task tasks hmain htasks =>
      have htask : task ∈ s.deleteTasks := by
        rw [htasks]
        exact List.mem_cons_self
      refine ⟨task, tasks, htasks, ?_, hs.mConns_deleteConnInloop hmain htask⟩
      rw [← hs.mConns_of_task hmain htask]
      rfl
  · cases made_of_step hstep with
    | store hmain ho => exact fun fd i hi => hs.mConns_store hmain ho hi

/-- A descriptor is used by a second connection after the first is deleted and destroyed. -/
theorem bookkeeping_of_run_reuse : ∃ outs s,
    run step (start 10 (fun _ : Unit => {}))
      [.accept 5 (), .store, .listenRead () true, .close 0 true, .release 0, .deleteConnInloop,
        .release 0, .destroy 0 true, .accept 5 (), .store, .close 1 true] = .ok (outs, s) ∧
    (∀ d ∈ s.ran, d.found = some d.task.closer) ∧
    ∀ i, s.closers.count i ≤ 1 ∧ (s.closers.count i = 1 ↔ s.Closed i) := by
  have h : run step (start 10 (fun _ : Unit => {}))
      [.accept 5 (), .store, .listenRead () true, .close 0 true, .release 0, .deleteConnInloop,
        .release 0, .destroy 0 true, .accept 5 (), .store, .close 1 true] = .ok (_, _) := rfl
  obtain ⟨-, hran, -, -, hclosers⟩ := bookkeeping_of_run h
  exact ⟨_, _, h, hran, hclosers⟩

end Steps

end TcpServer

end Lars.Reactor
