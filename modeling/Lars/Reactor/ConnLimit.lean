import Mathlib.Algebra.Order.Ring.Int
import Mathlib.Data.Finset.Card
import Mathlib.Tactic.SplitIfs
import Lars.Foundations.Int32
import Lars.Reactor.TcpServer

/-!
# The limit on connections

`tcp_server` counts its connections in `s_conn_nums`, raised by `tcp_conn::tcp_conn` and lowered by
`tcp_conn::~tcp_conn`. `accept_callback` reads the count before it makes a connection, and refuses
if it is greater than `m_max_conn_nums`: at the limit it makes one more.

The main loop reads the count and raises it in two steps, and other threads may lower it before,
between and after them.

* `alive_le_of_run`: the limit holds in every run in which no test finds the count at the limit;
* `alive_le_succ_of_run`: in any run there is at most one connection too many;
* `server_connNums_of_run`: so in the runs of the whole server.
-/

namespace Lars.Reactor

open Machine

/-- `s_conn_nums.load() > m_max_conn_nums`. -/
def tooMany (connNums maxConnNums : Int32) : Prop := connNums > maxConnNums

instance (connNums maxConnNums : Int32) : Decidable (tooMany connNums maxConnNums) :=
  inferInstanceAs (Decidable (maxConnNums < connNums))

theorem toInt_le_of_not_tooMany {connNums maxConnNums : Int32}
    (h : ¬ tooMany connNums maxConnNums) : connNums.toInt ≤ maxConnNums.toInt :=
  Int32.le_iff_toInt_le.mp (Int32.not_lt.mp h)

/-- Where the main loop is in `accept_callback`. -/
inductive AcceptAt
  | idle
  /-- `accept` has answered with a connection. -/
  | accepted
  /-- The connection is not refused. -/
  | admitted
  deriving DecidableEq

/-- `s_conn_nums` and `m_max_conn_nums`, with the connections there are. -/
structure ConnCount where
  maxConnNums : Int32
  connNums : Int32 := 0
  alive : Finset ℕ := ∅
  next : ℕ := 0
  main : AcceptAt := .idle

/-- The steps of the main loop, and of the threads that drop last pointers. -/
inductive CountEvent
  /-- `accept` answers with a connection. -/
  | accept
  /-- The count is compared with the limit. -/
  | test
  /-- `tcp_conn::tcp_conn`. -/
  | construct
  /-- `tcp_conn::~tcp_conn`. -/
  | destroy (conn : ℕ)
  deriving DecidableEq

namespace ConnCount

/-- A step. -/
def step (s : ConnCount) : CountEvent → Except Disabled (Unit × ConnCount)
  | .accept =>
    if s.main = .idle then .ok ((), { s with main := .accepted }) else .error .disabled
  | .test =>
    if s.main = .accepted then
      .ok ((), { s with main := if tooMany s.connNums s.maxConnNums then .idle else .admitted })
    else .error .disabled
  | .construct =>
    if s.main = .admitted then
      .ok ((), { s with
        connNums := s.connNums + 1
        alive := insert s.next s.alive
        next := s.next + 1
        main := .idle })
    else .error .disabled
  | .destroy conn =>
    if conn ∈ s.alive then
      .ok ((), { s with connNums := s.connNums - 1, alive := s.alive.erase conn })
    else .error .disabled

/-- The count is that of the connections, of which there are at most `bound`, and fewer if one more
is about to be made. -/
structure Counted (bound : ℤ) (s : ConnCount) : Prop where
  fresh : ∀ conn ∈ s.alive, conn < s.next
  count : s.connNums.toInt = s.alive.card
  le : (s.alive.card : ℤ) ≤ bound
  lt : s.main = .admitted → (s.alive.card : ℤ) < bound

/-- A step keeps the bound if the test admits no connection at the bound. -/
theorem Counted.step {bound : ℤ} {s s' : ConnCount} {e : CountEvent} {u : Unit}
    (hs : Counted bound s) (hbound : bound < 2 ^ 31)
    (htest : e = .test → ¬ tooMany s.connNums s.maxConnNums → s.connNums.toInt < bound)
    (h : step s e = .ok (u, s')) : Counted bound s' ∧ s'.maxConnNums = s.maxConnNums := by
  obtain ⟨hfresh, hcount, hle, hlt⟩ := hs
  cases e with
  | accept =>
    simp only [ConnCount.step] at h
    split_ifs at h
    cases h
    exact ⟨⟨hfresh, hcount, hle, fun h => nomatch h⟩, rfl⟩
  | test =>
    simp only [ConnCount.step] at h
    split_ifs at h with hmain hmany
    · cases h
      exact ⟨⟨hfresh, hcount, hle, fun h => nomatch h⟩, rfl⟩
    · cases h
      exact ⟨⟨hfresh, hcount, hle, fun _ => hcount ▸ htest rfl hmany⟩, rfl⟩
  | construct =>
    simp only [ConnCount.step] at h
    split_ifs at h with hmain
    cases h
    have hroom := hlt hmain
    have hcard : (insert s.next s.alive).card = s.alive.card + 1 :=
      Finset.card_insert_of_notMem fun hmem => lt_irrefl _ (hfresh _ hmem)
    refine ⟨⟨?_, ?_, ?_, fun h => nomatch h⟩, rfl⟩
    · intro conn hconn
      rcases Finset.mem_insert.mp hconn with rfl | hmem
      · exact Nat.lt_succ_self _
      · exact Nat.lt_succ_of_lt (hfresh conn hmem)
    · show (s.connNums + 1).toInt = ((insert s.next s.alive).card : ℤ)
      rw [toInt_add_one (by omega), hcard, hcount]
      rfl
    · show ((insert s.next s.alive).card : ℤ) ≤ bound
      rw [hcard]
      omega
  | destroy conn =>
    simp only [ConnCount.step] at h
    split_ifs at h with hmem
    cases h
    have hcard := Finset.card_erase_add_one hmem
    refine ⟨⟨?_, ?_, ?_, ?_⟩, rfl⟩
    · exact fun conn' hconn' => hfresh conn' (Finset.mem_of_mem_erase hconn')
    · show (s.connNums - 1).toInt = ((s.alive.erase conn).card : ℤ)
      rw [toInt_sub_one (by omega), hcount]
      omega
    · show ((s.alive.erase conn).card : ℤ) ≤ bound
      omega
    · intro hmain
      have := hlt hmain
      show ((s.alive.erase conn).card : ℤ) < bound
      omega

/-- No step changes the limit. -/
theorem maxConnNums_of_run {es : List CountEvent} {s s' : ConnCount} {outs : List Unit}
    (h : run step s es = .ok (outs, s')) : s'.maxConnNums = s.maxConnNums := by
  refine run_invariant (P := fun t => t.maxConnNums = s.maxConnNums) ?_ rfl h
  intro s e u s' hs hstep
  rw [← hs]
  cases e <;> simp only [step] at hstep <;> split_ifs at hstep <;> cases hstep <;> rfl

theorem counted_start {maxConnNums : Int32} {bound : ℤ} (h : 0 ≤ bound) :
    Counted bound { maxConnNums := maxConnNums } :=
  ⟨fun _ hconn => absurd hconn (Finset.notMem_empty _), rfl, h, fun h => nomatch h⟩

/-- No test finds the count at the limit. -/
def Below (s : ConnCount) (e : CountEvent) : Prop := e = .test → s.connNums ≠ s.maxConnNums

/-- **The connection limit**: if no test finds the count at the limit, there are never more
connections than the limit, and the count is their number. -/
theorem alive_le_of_run {maxConnNums : Int32} (hmax : 1 ≤ maxConnNums) {es : List CountEvent}
    {outs : List Unit} {s : ConnCount} (hbelow : Along step Below { maxConnNums := maxConnNums } es)
    (hrun : run step { maxConnNums := maxConnNums } es = .ok (outs, s)) :
    (s.alive.card : ℤ) ≤ maxConnNums.toInt ∧ s.connNums.toInt = s.alive.card := by
  have hpos : 1 ≤ maxConnNums.toInt := Int32.le_iff_toInt_le.mp hmax
  have hstep : ∀ (s : ConnCount) (e : CountEvent) (u : Unit) (s' : ConnCount),
      Counted maxConnNums.toInt s ∧ s.maxConnNums = maxConnNums → Below s e →
      step s e = .ok (u, s') → Counted maxConnNums.toInt s' ∧ s'.maxConnNums = maxConnNums := by
    rintro s e u s' ⟨hs, hmaxs⟩ hok hstep
    refine (hs.step maxConnNums.toInt_lt ?_ hstep).imp_right fun h => h.trans hmaxs
    intro he hmany
    have hle := toInt_le_of_not_tooMany hmany
    have hne : s.connNums.toInt ≠ maxConnNums.toInt :=
      fun h => hok he (Int32.toInt_inj.mp (hmaxs ▸ h))
    rw [hmaxs] at hle
    omega
  have hinv := run_invariant_along hstep ⟨counted_start (by omega), rfl⟩ hbelow hrun
  exact ⟨hinv.1.le, hinv.1.count⟩

/-- Connections come and go below a limit of two. -/
theorem alive_le_two : ∃ s, run step { maxConnNums := 2 }
      [.accept, .test, .construct, .accept, .test, .destroy 0, .construct] =
        .ok (List.replicate 7 (), s) ∧
      (s.alive.card : ℤ) ≤ (2 : Int32).toInt ∧ s.connNums.toInt = s.alive.card := by
  have hrun : run step { maxConnNums := 2 }
      [.accept, .test, .construct, .accept, .test, .destroy 0, .construct] =
        .ok (List.replicate 7 (), { maxConnNums := 2, connNums := 1, alive := {1}, next := 2 }) :=
    rfl
  have htest : ∀ s e, e ≠ .test ∨ s.connNums ≠ s.maxConnNums → Below s e :=
    fun e s h he => h.resolve_left fun hne => hne he
  refine ⟨_, hrun, alive_le_of_run (by decide) ?_ hrun⟩
  exact along_cons (htest _ _ (by decide)) (along_cons (htest _ _ (by decide))
    (along_cons (htest _ _ (by decide)) (along_cons (htest _ _ (by decide))
      (along_cons (htest _ _ (by decide)) (along_cons (htest _ _ (by decide))
        (along_cons (htest _ _ (by decide)) (along_nil _ _)))))))

/-- At a limit of one, two connections are made. -/
theorem not_alive_le : ¬ ∀ maxConnNums : Int32, 1 ≤ maxConnNums →
    ∀ (es : List CountEvent) (outs : List Unit) (s : ConnCount),
      run step { maxConnNums := maxConnNums } es = .ok (outs, s) →
      (s.alive.card : ℤ) ≤ maxConnNums.toInt := by
  intro h
  have hle := h 1 (by decide) [.accept, .test, .construct, .accept, .test, .construct] _ _ rfl
  revert hle
  decide

/-- Whatever the tests find, there is at most one connection too many. -/
theorem alive_le_succ_of_run {maxConnNums : Int32} (hmax : 1 ≤ maxConnNums)
    (hlt : maxConnNums.toInt < 2 ^ 31 - 1) {es : List CountEvent} {outs : List Unit} {s : ConnCount}
    (hrun : run step { maxConnNums := maxConnNums } es = .ok (outs, s)) :
    (s.alive.card : ℤ) ≤ maxConnNums.toInt + 1 ∧ s.connNums.toInt = s.alive.card := by
  have hpos : 1 ≤ maxConnNums.toInt := Int32.le_iff_toInt_le.mp hmax
  have hstep : ∀ (s : ConnCount) (e : CountEvent) (u : Unit) (s' : ConnCount),
      Counted (maxConnNums.toInt + 1) s ∧ s.maxConnNums = maxConnNums →
      step s e = .ok (u, s') →
      Counted (maxConnNums.toInt + 1) s' ∧ s'.maxConnNums = maxConnNums := by
    rintro s e u s' ⟨hs, hmaxs⟩ hstep
    refine (hs.step (by omega) ?_ hstep).imp_right fun h => h.trans hmaxs
    intro _ hmany
    have hle := toInt_le_of_not_tooMany hmany
    rw [hmaxs] at hle
    omega
  have hinv := run_invariant hstep ⟨counted_start (by omega), rfl⟩ hrun
  exact ⟨hinv.1.le, hinv.1.count⟩

/-! ## The whole server -/

section Server

variable {ℓ : Type} [DecidableEq ℓ]

/-- The server outside `accept_callback`, and its count. -/
structure Counts (s : TcpServer ℓ) (c : ConnCount) : Prop where
  maxConnNums : c.maxConnNums.toInt = s.maxConnNums
  connNums : c.connNums.toInt = s.connNums
  alive : ∀ conn, conn ∈ c.alive ↔ s.objects conn ≠ none
  next : c.next = s.next
  main : c.main = .idle

omit [DecidableEq ℓ] in
/-- What leaves the objects in their places leaves them counted. -/
theorem Counts.frame {s s' : TcpServer ℓ} {c : ConnCount} (h : Counts s c)
    (hmax : s'.maxConnNums = s.maxConnNums) (hnums : s'.connNums = s.connNums)
    (hobjects : ∀ conn, s'.objects conn ≠ none ↔ s.objects conn ≠ none) (hnext : s'.next = s.next) :
    Counts s' c :=
  ⟨hmax ▸ h.maxConnNums, hnums ▸ h.connNums, fun conn => (h.alive conn).trans (hobjects conn).symm,
    hnext ▸ h.next, h.main⟩

theorem objects_close {s : TcpServer ℓ} {conn : ℕ} {o : ConnObject ℓ} (ho : s.objects conn = some o)
    (ctl : Bool) (conn' : ℕ) :
    (s.close conn o ctl).objects conn' ≠ none ↔ s.objects conn' ≠ none := by
  unfold TcpServer.close
  split_ifs
  · rfl
  · by_cases hconn : conn' = conn
    · subst hconn
      simp [ho]
    · simp [Function.update_of_ne hconn]

/-- `accept_callback` is an `accept`, a test and perhaps a constructor. -/
theorem Counts.accept {s s' : TcpServer ℓ} {c : ConnCount} {fd : ℤ} {loop : ℓ} {u : Unit}
    (h : Counts s c) (hlt : c.maxConnNums.toInt < 2 ^ 31 - 1)
    (hstep : TcpServer.step s (.accept fd loop) = .ok (u, s')) :
    ∃ es outs c', run step c es = .ok (outs, c') ∧ Counts s' c' := by
  have hmany : tooMany c.connNums c.maxConnNums ↔ s.connNums > s.maxConnNums := by
    rw [tooMany, gt_iff_lt, Int32.lt_iff_toInt_lt, h.maxConnNums, h.connNums, Int.ofNat_lt]
  simp only [TcpServer.step] at hstep
  split_ifs at hstep with hdisabled hfull
  · cases hstep
    refine ⟨[.accept, .test], [(), ()], c, ?_, h⟩
    obtain ⟨hmax, hnums, halive, hnext, hmain⟩ := h
    obtain ⟨maxConnNums, connNums, alive, next, main⟩ := c
    cases hmain
    simp [run, ConnCount.step, hmany.mpr hfull]
  · cases hstep
    refine ⟨[.accept, .test, .construct], [(), (), ()],
      { c with connNums := c.connNums + 1, alive := insert c.next c.alive, next := c.next + 1 },
      ?_, ?_⟩
    · obtain ⟨hmax, hnums, halive, hnext, hmain⟩ := h
      obtain ⟨maxConnNums, connNums, alive, next, main⟩ := c
      cases hmain
      simp [run, ConnCount.step, mt hmany.mp hfull]
    · refine ⟨h.maxConnNums, ?_, fun conn => ?_, congrArg (· + 1) h.next, h.main⟩
      · have hle := toInt_le_of_not_tooMany (mt hmany.mp hfull)
        show (c.connNums + 1).toInt = ((s.connNums + 1 : ℕ) : ℤ)
        rw [toInt_add_one (by omega), h.connNums]
        rfl
      · show conn ∈ insert c.next c.alive ↔ Function.update s.objects s.next _ conn ≠ none
        rw [Finset.mem_insert, h.alive, h.next]
        by_cases hconn : conn = s.next
        · simp [hconn]
        · simp [hconn]

/-- A destructor is one. -/
theorem Counts.destroy {s : TcpServer ℓ} {c : ConnCount} {conn : ℕ} {o : ConnObject ℓ}
    (h : Counts s c) (hcard : c.connNums.toInt = c.alive.card) (ho : s.objects conn = some o)
    (ctl : Bool) :
    ∃ es outs c', run step c es = .ok (outs, c') ∧ Counts (s.destroy conn o ctl) c' := by
  have hmem : conn ∈ c.alive := (h.alive conn).mpr (by simp [ho])
  have hpos : 0 < c.alive.card := Finset.card_pos.mpr ⟨conn, hmem⟩
  have hframe := TcpServer.close_frame s conn o ctl
  refine ⟨[.destroy conn], [()],
    { c with connNums := c.connNums - 1, alive := c.alive.erase conn }, ?_, ?_⟩
  · simp [run, ConnCount.step, hmem]
  · refine ⟨h.maxConnNums.trans (congrArg _ hframe.maxConnNums.symm), ?_, fun conn' => ?_,
      h.next.trans hframe.next.symm, h.main⟩
    · show (c.connNums - 1).toInt = (((s.close conn o ctl).connNums - 1 : ℕ) : ℤ)
      have := h.connNums
      rw [toInt_sub_one (by omega), hframe.connNums]
      omega
    · show conn' ∈ c.alive.erase conn ↔
        Function.update (s.close conn o ctl).objects conn none conn' ≠ none
      rw [Finset.mem_erase, h.alive, ← objects_close ho ctl]
      by_cases hconn : conn' = conn
      · simp [hconn]
      · simp [hconn]

/-- A step of the server is a run of the count. -/
theorem Counts.step {s s' : TcpServer ℓ} {c : ConnCount} {e : ServerEvent ℓ} {u : Unit}
    (h : Counts s c) (hlt : c.maxConnNums.toInt < 2 ^ 31 - 1)
    (hcard : c.connNums.toInt = c.alive.card) (hstep : TcpServer.step s e = .ok (u, s')) :
    ∃ es outs c', run ConnCount.step c es = .ok (outs, c') ∧ Counts s' c' := by
  have hnone : Counts s' c →
      ∃ es outs c', run ConnCount.step c es = .ok (outs, c') ∧ Counts s' c' :=
    fun hs' => ⟨[], [], c, rfl, hs'⟩
  have hsame : ∀ conn, s.objects conn ≠ none ↔ s.objects conn ≠ none := fun _ => Iff.rfl
  cases TcpServer.made_of_step hstep with
  | refuse => exact h.accept hlt hstep
  | accept hmain hfd => exact h.accept hlt hstep
  | store hmain ho => exact hnone (h.frame rfl rfl hsame rfl)
  | listenRead htasks ho => exact hnone (h.frame rfl rfl hsame rfl)
  | send ho => exact hnone (h.frame rfl rfl hsame rfl)
  | drained ho => exact hnone (h.frame rfl rfl hsame rfl)
  | @close conn ctl o ho =>
    have hframe := TcpServer.close_frame s conn o ctl
    exact hnone (h.frame hframe.maxConnNums hframe.connNums (objects_close ho ctl) hframe.next)
  | deleteConnInloop hmain htasks => exact hnone (h.frame rfl rfl hsame rfl)
  | hold ho => exact hnone (h.frame rfl rfl hsame rfl)
  | release => exact hnone (h.frame rfl rfl hsame rfl)
  | @destroy conn ctl o ho href => exact h.destroy hcard ho ctl

/-- **The runs of the server**: its count is that of its connections, and there is at most one too
many. -/
theorem server_connNums_of_run {maxConnNums : Int32} (hmax : 1 ≤ maxConnNums)
    (hlt : maxConnNums.toInt < 2 ^ 31 - 1) {loops : ℓ → EventLoop ConnCallback}
    {es : List (ServerEvent ℓ)} {outs : List Unit} {s : TcpServer ℓ}
    (hrun : run TcpServer.step (TcpServer.start maxConnNums.toInt.toNat loops) es = .ok (outs, s)) :
    ∃ alive : Finset ℕ, (∀ conn, conn ∈ alive ↔ s.objects conn ≠ none) ∧
      s.connNums = alive.card ∧ (alive.card : ℤ) ≤ maxConnNums.toInt + 1 := by
  have hstep : ∀ (s : TcpServer ℓ) (e : ServerEvent ℓ) (u : Unit) (s' : TcpServer ℓ),
      (∃ es outs c, run step { maxConnNums := maxConnNums } es = .ok (outs, c) ∧ Counts s c) →
      TcpServer.step s e = .ok (u, s') →
      ∃ es outs c, run step { maxConnNums := maxConnNums } es = .ok (outs, c) ∧ Counts s' c := by
    rintro s e u s' ⟨es, outs, c, hc, hs⟩ hstep
    have hmaxc : c.maxConnNums = maxConnNums := maxConnNums_of_run hc
    obtain ⟨es', outs', c', hc', hs'⟩ := hs.step (hmaxc ▸ hlt)
      (alive_le_succ_of_run hmax hlt hc).2 hstep
    exact ⟨es ++ es', outs ++ outs', c', run_append_ok hc hc', hs'⟩
  have hpos : 0 ≤ maxConnNums.toInt :=
    le_trans Int.one_nonneg (Int32.le_iff_toInt_le.mp hmax)
  obtain ⟨es, outs, c, hc, hs⟩ := run_invariant hstep ⟨[], [], _, rfl,
    (Int.toNat_of_nonneg hpos).symm, rfl,
    fun conn => iff_of_false (Finset.notMem_empty conn) fun h => h rfl, rfl, rfl⟩ hrun
  obtain ⟨hle, hcard⟩ := alive_le_succ_of_run hmax hlt hc
  exact ⟨c.alive, hs.alive, Int.ofNat.inj (hs.connNums.symm.trans hcard), hle⟩

end Server

end ConnCount

end Lars.Reactor
