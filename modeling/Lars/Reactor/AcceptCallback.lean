import Lars.Foundations.Loop
import Lars.Reactor.Bookkeeping
import Lars.Reactor.ConnLimit

/-!
# Out of descriptors

`tcp_server::accept_callback` calls `accept` until it has dealt with a connection or there is none
waiting. A signal makes it call again; so does `EMFILE`, the process having as many descriptors open
as it may. But the descriptors of closed connections are given back by `delete_conn_inloop`, a task
of the loop that is in `accept_callback`.

* `returns_iff`: when `accept_callback` returns to its loop;
* `not_returns_of_full`: if the connections alone reach the limit it does not, whatever the other
  threads do.
-/

namespace Lars.Reactor

open Machine

/-- What a failed `accept` leaves in `errno`. -/
inductive Errno
  | eintr
  | emfile
  | eagain
  | other
  deriving DecidableEq

/-- An answer of `accept4`. -/
inductive AcceptAnswer
  | conn (fd : ℤ)
  | failed (errno : Errno)
  deriving DecidableEq

/-- The answer makes `accept_callback` leave its loop. -/
def AcceptAnswer.Leaves (answer : AcceptAnswer) : Prop :=
  (∃ fd, answer = .conn fd) ∨ answer = .failed .eagain

/-- The answer makes it call `accept` again. -/
def AcceptAnswer.Retries (answer : AcceptAnswer) : Prop :=
  answer = .failed .eintr ∨ answer = .failed .emfile

/-- The process during a call of `accept_callback`, at the time of each call of `accept`: its limit,
the descriptors that are open, what `accept` answers if it may open one more, and `s_conn_nums`. -/
structure AcceptEnv where
  limit : ℕ
  openFds : ℕ → Finset ℤ
  answer : ℕ → AcceptAnswer
  connNums : ℕ → Int32

/-- `csocket::accept`. -/
def AcceptEnv.accept (env : AcceptEnv) (n : ℕ) : AcceptAnswer :=
  if env.limit ≤ (env.openFds n).card then .failed .emfile else env.answer n

/-- How `accept_callback` returns. -/
inductive Accepted
  /-- No connection is waiting. -/
  | drained
  /-- There are too many, and the descriptor has been closed. -/
  | refused (fd : ℤ)
  /-- A `tcp_conn` has been made, and `listen_read` queued. -/
  | made (fd : ℤ)
  deriving DecidableEq

/-- A pass of the loop of `tcp_server::accept_callback`. -/
def acceptPass (maxConnNums : Int32) (env : AcceptEnv) (n : ℕ) : Except Halt (Pass ℕ Accepted) :=
  match env.accept n with
  | .failed .eintr => .ok (.next (n + 1))
  | .failed .emfile => .ok (.next (n + 1))
  | .failed .eagain => .ok (.leave .drained)
  | .failed .other => .error .exit
  | .conn fd =>
    if tooMany (env.connNums n) maxConnNums then .ok (.leave (.refused fd))
    else .ok (.leave (.made fd))

/-- `accept_callback` returns, after finitely many calls of `accept`. -/
def Returns (maxConnNums : Int32) (env : AcceptEnv) : Prop :=
  ∃ r n, iterate (acceptPass maxConnNums env) n 0 = some (.ok r)

section Passes

variable {maxConnNums : Int32} {env : AcceptEnv} {n : ℕ}

theorem acceptPass_eq_next {n' : ℕ} :
    acceptPass maxConnNums env n = .ok (.next n') ↔ (env.accept n).Retries ∧ n' = n + 1 := by
  unfold acceptPass AcceptAnswer.Retries
  split
  · next h => simp [h, eq_comm]
  · next h => simp [h, eq_comm]
  · next h => simp [h]
  · next h => simp [h]
  · next fd h => split <;> simp [h]

theorem exists_acceptPass_eq_leave :
    (∃ r, acceptPass maxConnNums env n = .ok (.leave r)) ↔ (env.accept n).Leaves := by
  unfold acceptPass AcceptAnswer.Leaves
  split
  · next h => simp [h]
  · next h => simp [h]
  · next h => simp [h]
  · next h => simp [h]
  · next fd h => split <;> simp [h]

/-- `accept` has been called again each time before. -/
theorem reaches_acceptPass {n' : ℕ} :
    Reaches (acceptPass maxConnNums env) n n' ↔
      n ≤ n' ∧ ∀ m, n ≤ m → m < n' → (env.accept m).Retries := by
  constructor
  · intro h
    induction h with
    | refl n => exact ⟨le_rfl, fun m hle hlt => absurd hlt (not_lt.mpr hle)⟩
    | next hb _ ih =>
      obtain ⟨hretry, rfl⟩ := acceptPass_eq_next.mp hb
      refine ⟨Nat.le_of_succ_le ih.1, fun m hle hlt => ?_⟩
      rcases Nat.eq_or_lt_of_le hle with rfl | hlt'
      · exact hretry
      · exact ih.2 m hlt' hlt
  · rintro ⟨hle, hretry⟩
    induction hle using Nat.decreasingInduction with
    | self => exact .refl n'
    | of_succ k hk ih =>
      exact .next (acceptPass_eq_next.mpr ⟨hretry k le_rfl hk, rfl⟩)
        (ih fun m hm => hretry m (Nat.le_of_succ_le hm))

/-- `accept_callback` returns if and only if some answer makes it, and it calls `accept` until
then. -/
theorem returns_iff_answers :
    Returns maxConnNums env ↔ ∃ n, (env.accept n).Leaves ∧ ∀ m < n, (env.accept m).Retries := by
  unfold Returns
  simp only [exists_iterate_eq_ok, reaches_acceptPass, Nat.zero_le, true_and, forall_const]
  constructor
  · rintro ⟨r, n, hretry, hleave⟩
    exact ⟨n, exists_acceptPass_eq_leave.mp ⟨r, hleave⟩, hretry⟩
  · rintro ⟨n, hleaves, hretry⟩
    obtain ⟨r, hr⟩ := exists_acceptPass_eq_leave.mpr hleaves
    exact ⟨r, n, hretry, hr⟩

end Passes

/-- **Returning to the loop**: `accept_callback` does if and only if at some time the process is
below its limit and there is a connection or none is waiting, and at all times before it is at its
limit or is interrupted. -/
theorem returns_iff (maxConnNums : Int32) (env : AcceptEnv) :
    Returns maxConnNums env ↔
      ∃ n, (env.openFds n).card < env.limit ∧ (env.answer n).Leaves ∧
        ∀ m < n, env.limit ≤ (env.openFds m).card ∨ (env.answer m).Retries := by
  have hleaves : ∀ n, (env.accept n).Leaves ↔
      (env.openFds n).card < env.limit ∧ (env.answer n).Leaves := by
    intro n
    unfold AcceptEnv.accept
    split_ifs with h
    · simp [AcceptAnswer.Leaves, not_lt.mpr h]
    · simp [not_le.mp h]
  have hretries : ∀ n, (env.accept n).Retries ↔
      env.limit ≤ (env.openFds n).card ∨ (env.answer n).Retries := by
    intro n
    unfold AcceptEnv.accept
    split_ifs with h
    · simp [AcceptAnswer.Retries, h]
    · simp [h]
  rw [returns_iff_answers]
  simp only [hleaves, hretries, and_assoc]

/-! ## The server that waits for itself -/

/-- A step of the thread that runs the main loop. -/
def ServerEvent.OfMain {ℓ : Type} : ServerEvent ℓ → Prop
  | .accept _ _ => True
  | .store => True
  | .deleteConnInloop => True
  | _ => False

namespace TcpServer

variable {ℓ : Type} [DecidableEq ℓ]

/-- The environment of a call of `accept_callback` in the state `s`: until each call of `accept` the
other threads have made some steps, and the descriptors of connections that are open then are among
those of the process. -/
def During (s : TcpServer ℓ) (env : AcceptEnv) : Prop :=
  ∀ n, ∃ es outs s', run step s es = .ok (outs, s') ∧ (∀ e ∈ es, ¬ e.OfMain) ∧
    s'.openFds ⊆ env.openFds n

/-- Only the main loop changes `m_conns`. -/
theorem Made.mConns {s s' : TcpServer ℓ} {e : ServerEvent ℓ} (h : Made s e s') (he : ¬ e.OfMain) :
    s'.mConns = s.mConns := by
  cases h with
  | refuse => rfl
  | accept => exact absurd trivial he
  | store => exact absurd trivial he
  | listenRead => rfl
  | send => rfl
  | drained => rfl
  | close => exact (close_frame s _ _ _).mConns
  | deleteConnInloop => exact absurd trivial he
  | hold => rfl
  | release => rfl
  | destroy => exact (close_frame s _ _ _).mConns

theorem mConns_of_run {s s' : TcpServer ℓ} {es : List (ServerEvent ℓ)} {outs : List Unit}
    (h : run step s es = .ok (outs, s')) (hes : ∀ e ∈ es, ¬ e.OfMain) : s'.mConns = s.mConns := by
  induction es generalizing s outs with
  | nil =>
    obtain ⟨-, rfl⟩ : [] = outs ∧ s = s' := by simpa using h
    rfl
  | cons e es ih =>
    obtain ⟨o, s₁, os, hstep, hrun, -⟩ := run_cons_eq_ok.mp h
    rw [ih hrun fun e' he' => hes e' (List.mem_cons_of_mem e he'),
      (made_of_step hstep).mConns (hes e List.mem_cons_self)]

/-- While the main loop is in `accept_callback`, the connections in `m_conns` keep their
descriptors. -/
theorem During.subset {maxConnNums : ℕ} {loops : ℓ → EventLoop ConnCallback}
    {es : List (ServerEvent ℓ)} {outs : List Unit} {s : TcpServer ℓ} {env : AcceptEnv}
    (hs : run step (start maxConnNums loops) es = .ok (outs, s)) (henv : s.During env)
    {fds : Finset ℤ} (hfds : ∀ fd ∈ fds, s.mConns fd ≠ none) (n : ℕ) : fds ⊆ env.openFds n := by
  obtain ⟨es', outs', s', hrun, hmain, hopen⟩ := henv n
  intro fd hfd
  obtain ⟨conn, hconn⟩ := Option.ne_none_iff_exists'.mp (hfds fd hfd)
  rw [← mConns_of_run hrun hmain] at hconn
  have hbooked : s'.Booked := booked_of_run (run_append_ok hs hrun)
  obtain ⟨o, ho, rfl⟩ := hbooked.entry fd conn hconn
  exact hopen (hbooked.isOpen conn o ho)

/-- **Out of descriptors**: if the connections in `m_conns` reach the limit of the process,
`accept_callback` does not return, and the deletions that are queued do not run. -/
theorem not_returns_of_full {maxConnNums : ℕ} {loops : ℓ → EventLoop ConnCallback}
    {es : List (ServerEvent ℓ)} {outs : List Unit} {s : TcpServer ℓ} {env : AcceptEnv}
    (hs : run step (start maxConnNums loops) es = .ok (outs, s)) (henv : s.During env)
    {fds : Finset ℤ} (hfds : ∀ fd ∈ fds, s.mConns fd ≠ none) (hfull : env.limit ≤ fds.card)
    (limit : Int32) : ¬ Returns limit env := by
  intro h
  obtain ⟨n, hleaves, -⟩ := returns_iff_answers.mp h
  have hfullEnv : env.limit ≤ (env.openFds n).card :=
    le_trans hfull (Finset.card_le_card (henv.subset hs hfds n))
  rw [AcceptEnv.accept, if_pos hfullEnv] at hleaves
  rcases hleaves with ⟨fd, h⟩ | h <;> cases h

/-- With descriptors 0 to 5 open besides that of a closed connection, and a limit of 7. -/
theorem not_returns : ¬ ∀ (es : List (ServerEvent Unit)) (outs : List Unit) (s : TcpServer Unit)
    (env : AcceptEnv), run step (start 10 fun _ => {}) es = .ok (outs, s) → s.main = .idle →
      s.During env → Returns 10 env := by
  intro h
  have hopen : ({6} : Finset ℤ) ⊆ {0, 1, 2, 3, 4, 5, 6} := by decide
  have hreturns := h [.accept 6 (), .store, .listenRead () true, .close 0 true] _ _
    { limit := 7, openFds := fun _ => {0, 1, 2, 3, 4, 5, 6}, answer := fun _ => .failed .eagain,
      connNums := fun _ => 1 } rfl rfl
    (fun n => ⟨[], [], _, rfl, fun e he => absurd he List.not_mem_nil, hopen⟩)
  obtain ⟨n, hleaves, -⟩ := returns_iff_answers.mp hreturns
  rcases hleaves with ⟨fd, h⟩ | h <;> cases h

end TcpServer

end Lars.Reactor
