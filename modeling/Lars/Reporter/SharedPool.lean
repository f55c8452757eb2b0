import Lars.Foundations.Stretches
import Lars.Reporter.StoreReport

/-!
# Threads that share the pool

The threads of the reporter's server all call `store_thread_pool::add_task`, which takes a loop with
`event_loop_thread_pool::get_next_loop` (`lars_reactor/src/event_loop_thread_pool.cc`). A call tests
`m_next`, puts it back to 0 if it has run over, and reads and increments it; nothing keeps the steps
of other threads from coming between.

* A thread that is left alone makes the call of the pool (`exists_run_getNextLoop`).
* In an interleaving all indexes are in range if and only if no stretch of it without a reset has
  more reads than there are loops (`indexes_lt_iff`).
* They are in range if a thread passes its test, or resets, only while no other is about to read
  (`indexes_lt_of_exclusive`); nothing in the code sees to that.
-/

namespace Lars.Reporter

open Machine Stretches

/-- Where a thread is in `get_next_loop`. -/
inductive PoolPc
  | outside
  /-- The test has found that `m_next` has run over. -/
  | resetting
  /-- About to read and increment `m_next`. -/
  | reading
  deriving DecidableEq

/-- The pool, and the threads that call it. -/
structure SharedPool (θ : Type*) where
  pool : EventLoopThreadPool
  pc : θ → PoolPc

/-- A step of a thread. -/
inductive PoolStep (θ : Type*)
  | test (t : θ)
  | reset (t : θ)
  | read (t : θ)

namespace PoolStep

variable {θ : Type*}

/-- The thread that makes the step. -/
def thread : PoolStep θ → θ
  | test t | reset t | read t => t

def isReset : PoolStep θ → Bool
  | reset _ => true
  | _ => false

def isRead : PoolStep θ → Bool
  | read _ => true
  | _ => false

end PoolStep

namespace SharedPool

variable {θ : Type*} [DecidableEq θ]

/-- After `event_loop_thread_pool::start`, with `n` threads in the pool. -/
def started (n : ℕ) : SharedPool θ where
  pool := { threadNum := n }
  pc _ := .outside

/-- A step of `get_next_loop`, with the index of `m_loops` that it uses. Before `m_next` overflows
its value has been used as an index that is out of range, so that a natural number stands for it. -/
def step (s : SharedPool θ) : PoolStep θ → Except Disabled (Option ℕ × SharedPool θ)
  | .test t =>
    match s.pc t with
    | .outside =>
      if s.pool.threadNum ≤ 0 then .ok (none, s)
      else if (s.pool.next : ℤ) ≥ s.pool.threadNum then
        .ok (none, { s with pc := Function.update s.pc t .resetting })
      else .ok (none, { s with pc := Function.update s.pc t .reading })
    | _ => .error .disabled
  | .reset t =>
    match s.pc t with
    | .resetting =>
      .ok (none, ⟨{ s.pool with next := 0 }, Function.update s.pc t .reading⟩)
    | _ => .error .disabled
  | .read t =>
    match s.pc t with
    | .reading =>
      .ok (some s.pool.next,
        ⟨{ s.pool with next := s.pool.next + 1 }, Function.update s.pc t .outside⟩)
    | _ => .error .disabled

/-- What the steps of a thread can do. -/
theorem step_cases {s s' : SharedPool θ} {e : PoolStep θ} {o : Option ℕ}
    (h : step s e = .ok (o, s')) :
    (∃ t, e = .test t ∧ s.pool.threadNum ≤ 0 ∧ o = none ∧ s' = s) ∨
    (∃ t, e = .test t ∧ s.pc t = .outside ∧ (s.pool.next : ℤ) ≥ s.pool.threadNum ∧ o = none ∧
      s' = { s with pc := Function.update s.pc t .resetting }) ∨
    (∃ t, e = .test t ∧ s.pc t = .outside ∧ (s.pool.next : ℤ) < s.pool.threadNum ∧ o = none ∧
      s' = { s with pc := Function.update s.pc t .reading }) ∨
    (∃ t, e = .reset t ∧ s.pc t = .resetting ∧ o = none ∧
      s' = ⟨{ s.pool with next := 0 }, Function.update s.pc t .reading⟩) ∨
    (∃ t, e = .read t ∧ s.pc t = .reading ∧ o = some s.pool.next ∧
      s' = ⟨{ s.pool with next := s.pool.next + 1 }, Function.update s.pc t .outside⟩) := by
  cases e with
  | test t =>
    simp only [step] at h
    split at h
    · next hpc =>
      split_ifs at h with hnum hnext
      · cases h
        exact .inl ⟨t, rfl, hnum, rfl, rfl⟩
      · cases h
        exact .inr (.inl ⟨t, rfl, hpc, hnext, rfl, rfl⟩)
      · cases h
        exact .inr (.inr (.inl ⟨t, rfl, hpc, not_le.mp hnext, rfl, rfl⟩))
    · cases h
  | reset t =>
    simp only [step] at h
    split at h
    · next hpc =>
      cases h
      exact .inr (.inr (.inr (.inl ⟨t, rfl, hpc, rfl, rfl⟩)))
    · cases h
  | read t =>
    simp only [step] at h
    split at h
    · next hpc =>
      cases h
      exact .inr (.inr (.inr (.inr ⟨t, rfl, hpc, rfl, rfl⟩)))
    · cases h

/-! ## A thread alone -/

/-- **A thread that is left alone** gets the loop that `get_next_loop` returns. -/
theorem exists_run_getNextLoop {s : SharedPool θ} {t : θ} (h : s.pc t = .outside) :
    ∃ es outs, (∀ e ∈ es, e.thread = t) ∧
      run step s es = .ok (outs, { s with pool := s.pool.getNextLoop.2 }) ∧
      outs.reduceOption = s.pool.getNextLoop.1.toList := by
  have hback : ∀ pc, Function.update (Function.update s.pc t pc) t .outside = s.pc := by
    intro pc
    rw [Function.update_idem, ← h, Function.update_eq_self]
  unfold EventLoopThreadPool.getNextLoop
  by_cases hnum : s.pool.threadNum ≤ 0
  · rw [if_pos hnum]
    refine ⟨[.test t], [none], by simp [PoolStep.thread], ?_, rfl⟩
    simp only [run, step, h, hnum, if_true]
  rw [if_neg hnum]
  by_cases hnext : (s.pool.next : ℤ) ≥ s.pool.threadNum
  · refine ⟨[.test t, .reset t, .read t], [none, none, some 0], by simp [PoolStep.thread], ?_, ?_⟩
    · simp only [run, step, h, hnum, hnext, if_false, if_true, Function.update_self,
        Function.update_idem, hback]
    · simp only [hnext, if_true]
      rfl
  · refine ⟨[.test t, .read t], [none, some s.pool.next], by simp [PoolStep.thread], ?_, ?_⟩
    · simp only [run, step, h, hnum, hnext, if_false, Function.update_self, hback]
    · simp only [hnext, if_false]
      rfl

/-! ## Interleavings -/

/-- The reads made since the last reset, if `m_next` was `k` before. -/
abbrev readsSince (k : ℕ) (es : List (PoolStep θ)) : ℕ :=
  since PoolStep.isReset PoolStep.isRead k es

/-- `m_next` counts the reads since the last reset; a read uses it. -/
theorem step_next {s s' : SharedPool θ} {e : PoolStep θ} {o : Option ℕ}
    (h : step s e = .ok (o, s')) :
    s'.pool.next = readsSince s.pool.next [e] ∧
      (o = none ∧ s'.pool.next ≤ s.pool.next ∨
        o = some s.pool.next ∧ s'.pool.next = s.pool.next + 1) := by
  rcases step_cases h with ⟨t, rfl, -, rfl, rfl⟩ | ⟨t, rfl, -, -, rfl, rfl⟩ |
    ⟨t, rfl, -, -, rfl, rfl⟩ | ⟨t, rfl, -, rfl, rfl⟩ | ⟨t, rfl, -, rfl, rfl⟩
  · exact ⟨rfl, .inl ⟨rfl, le_rfl⟩⟩
  · exact ⟨rfl, .inl ⟨rfl, le_rfl⟩⟩
  · exact ⟨rfl, .inl ⟨rfl, le_rfl⟩⟩
  · exact ⟨rfl, .inl ⟨rfl, Nat.zero_le _⟩⟩
  · exact ⟨rfl, .inr ⟨rfl, rfl⟩⟩

/-- All indexes are below `n` if and only if `m_next` never comes to exceed it. -/
theorem indexes_lt_iff_readsSince {n : ℕ} {es : List (PoolStep θ)} {s s' : SharedPool θ}
    {outs : List (Option ℕ)} (hs : s.pool.next ≤ n) (h : run step s es = .ok (outs, s')) :
    (∀ i, some i ∈ outs → i < n) ↔ ∀ p, p <+: es → readsSince s.pool.next p ≤ n := by
  induction es generalizing s outs with
  | nil =>
    obtain ⟨rfl, -⟩ : [] = outs ∧ s = s' := by simpa using h
    refine iff_of_true (fun i hi => absurd hi List.not_mem_nil) fun p hp => ?_
    rw [List.prefix_nil.mp hp]
    exact hs
  | cons e es ih =>
    obtain ⟨o, s₁, os, hstep, hrun, rfl⟩ := run_cons_eq_ok.mp h
    obtain ⟨hnext, hout⟩ := step_next hstep
    have hsplit : (∀ p, p <+: e :: es → readsSince s.pool.next p ≤ n) ↔
        ∀ p, p <+: es → readsSince s₁.pool.next p ≤ n := hnext ▸ since_le_cons hs e es
    rw [hsplit]
    rcases hout with ⟨rfl, hle⟩ | ⟨rfl, hread⟩
    · rw [← ih (hle.trans hs) hrun]
      simp only [List.mem_cons, reduceCtorEq, false_or]
    · by_cases hlt : s.pool.next < n
      · rw [← ih (by omega) hrun]
        simp only [List.mem_cons, Option.some.injEq]
        exact ⟨fun hall i hi => hall i (.inr hi),
          fun hall i hi => hi.elim (fun heq => heq ▸ hlt) (hall i)⟩
      · refine iff_of_false (fun hall => hlt (hall _ List.mem_cons_self)) fun hall => ?_
        have hzero : s₁.pool.next ≤ n := hall [] List.nil_prefix
        omega

/-- **Indexes stay in range** if and only if no stretch without a reset has more reads than there
are loops. -/
theorem indexes_lt_iff {n : ℕ} {es : List (PoolStep θ)} {s' : SharedPool θ}
    {outs : List (Option ℕ)} (h : run step (started n) es = .ok (outs, s')) :
    (∀ i, some i ∈ outs → i < n) ↔
      ∀ seg, seg <:+: es → (∀ e ∈ seg, e.isReset = false) → seg.countP PoolStep.isRead ≤ n :=
  (indexes_lt_iff_readsSince (Nat.zero_le n) h).trans since_le_iff

/-! ## Exclusive calls -/

/-- A thread passes its test, or resets, only while no other is about to read. -/
def Exclusive (s : SharedPool θ) : PoolStep θ → Prop
  | .test _ => (s.pool.next : ℤ) < s.pool.threadNum → ∀ t', s.pc t' ≠ .reading
  | .reset _ => ∀ t', s.pc t' ≠ .reading
  | .read _ => True

/-- At most one thread is about to read, and has a loop to read. -/
structure OneReader (n : ℕ) (s : SharedPool θ) : Prop where
  threadNum : s.pool.threadNum = n
  unique : ∀ {t t'}, s.pc t = .reading → s.pc t' = .reading → t = t'
  lt : ∀ {t}, s.pc t = .reading → s.pool.next < n

omit [DecidableEq θ] in
theorem oneReader_started (n : ℕ) : OneReader n (started n : SharedPool θ) where
  threadNum := rfl
  unique := nofun
  lt := nofun

/-- A thread that starts to read while no other is about to is the only one. -/
theorem OneReader.reading {n : ℕ} {s : SharedPool θ} {pool : EventLoopThreadPool} {t : θ}
    (hno : ∀ t', s.pc t' ≠ .reading) (hnum : pool.threadNum = n) (hlt : pool.next < n) :
    OneReader n ⟨pool, Function.update s.pc t .reading⟩ := by
  have hreading : ∀ {t'}, Function.update s.pc t .reading t' = .reading → t' = t := by
    intro t' ht'
    by_contra hne
    rw [Function.update_of_ne hne] at ht'
    exact hno t' ht'
  exact ⟨hnum, fun ht ht' => (hreading ht).trans (hreading ht').symm, fun _ => hlt⟩

/-- A thread that does not start to read leaves those that are about to. -/
theorem OneReader.other {n : ℕ} {s : SharedPool θ} (h : OneReader n s) {t : θ} {pc : PoolPc}
    (hpc : pc ≠ .reading) : OneReader n { s with pc := Function.update s.pc t pc } := by
  have hreading : ∀ {t'}, Function.update s.pc t pc t' = .reading → s.pc t' = .reading := by
    intro t' ht'
    rw [Function.update_apply] at ht'
    split_ifs at ht'
    · exact absurd ht' hpc
    · exact ht'
  exact ⟨h.threadNum, fun ht ht' => h.unique (hreading ht) (hreading ht'),
    fun ht => h.lt (hreading ht)⟩

theorem OneReader.step {n : ℕ} (hn : 1 ≤ n) {s s' : SharedPool θ} {e : PoolStep θ}
    {o : Option ℕ} (h : OneReader n s) (hex : Exclusive s e) (hstep : step s e = .ok (o, s')) :
    (∀ i, o = some i → i < n) ∧ OneReader n s' := by
  have hnum := h.threadNum
  rcases step_cases hstep with ⟨t, rfl, -, rfl, rfl⟩ | ⟨t, rfl, -, -, rfl, rfl⟩ |
    ⟨t, rfl, -, hlt, rfl, rfl⟩ | ⟨t, rfl, -, rfl, rfl⟩ | ⟨t, rfl, hpc, rfl, rfl⟩
  · exact ⟨nofun, h⟩
  · exact ⟨nofun, h.other (by decide)⟩
  · exact ⟨nofun, OneReader.reading (hex hlt) hnum (by omega)⟩
  · exact ⟨nofun, OneReader.reading hex hnum hn⟩
  · refine ⟨fun i hi => Option.some.inj hi ▸ h.lt hpc, ?_⟩
    -- the thread was the only one about to read, so none is left
    have hno : ∀ t', Function.update s.pc t .outside t' ≠ .reading := by
      intro t' ht'
      rw [Function.update_apply] at ht'
      split_ifs at ht' with heq
      exact heq (h.unique ht' hpc)
    exact ⟨hnum, fun ht => absurd ht (hno _), fun ht => absurd ht (hno _)⟩

/-- **Exclusive calls use indexes in range.** -/
theorem indexes_lt_of_exclusive {n : ℕ} (hn : 1 ≤ n) {es : List (PoolStep θ)}
    {s' : SharedPool θ} {outs : List (Option ℕ)} (hex : Along step Exclusive (started n) es)
    (h : run step (started n) es = .ok (outs, s')) : ∀ i, some i ∈ outs → i < n := by
  have halong := hex.imp (P := OneReader n)
    (B := fun s e => ∀ o s', step s e = .ok (o, s') → (∀ i, o = some i → i < n) ∧ OneReader n s')
    (fun s e hs he => ⟨fun o s' hstep => hs.step hn he hstep,
      fun o s' hstep => (hs.step hn he hstep).2⟩) (oneReader_started n)
  obtain ⟨houts, -⟩ := (prefixes_iff_along (oneReader_started n)).mpr halong es outs s'
    List.prefix_rfl h
  exact fun i hi => houts (some i) hi i rfl

/-- Two threads share two loops. Both find that `m_next` has run over before one of them has reset
it, and each resets it once the other has read. -/
theorem indexes_lt_two_threads :
    ∃ outs s', run step (started 2 : SharedPool (Fin 2)) [.test 0, .read 0, .test 1, .read 1,
        .test 0, .test 1, .reset 0, .read 0, .test 0, .read 0, .reset 1, .read 1] =
          .ok (outs, s') ∧
      outs.reduceOption = [0, 1, 0, 1, 0] ∧ ∀ i, some i ∈ outs → i < 2 := by
  have hex : Along step Exclusive (started 2 : SharedPool (Fin 2)) [.test 0, .read 0, .test 1,
      .read 1, .test 0, .test 1, .reset 0, .read 0, .test 0, .read 0, .reset 1, .read 1] := by
    refine along_cons ?_ <| along_cons trivial <| along_cons ?_ <| along_cons trivial <|
      along_cons ?_ <| along_cons ?_ <| along_cons ?_ <| along_cons trivial <| along_cons ?_ <|
      along_cons trivial <| along_cons ?_ <| along_cons trivial <| along_nil _ _
    · exact fun _ => by decide
    · exact fun _ => by decide
    · exact fun _ => by decide
    · exact fun _ => by decide
    · change ∀ t : Fin 2, _
      decide
    · exact fun _ => by decide
    · change ∀ t : Fin 2, _
      decide
  exact ⟨_, _, rfl, rfl, indexes_lt_of_exclusive (by decide) hex rfl⟩

/-- Two threads pass the test while one loop is left. -/
theorem not_indexes_lt :
    ¬ ∀ (threads n : ℕ) (es : List (PoolStep (Fin threads))) (outs : List (Option ℕ))
      (s' : SharedPool (Fin threads)), 1 ≤ n → run step (started n) es = .ok (outs, s') →
        ∀ i, some i ∈ outs → i < n := by
  intro h
  have hlt := h 2 3 [.test 0, .read 0, .test 0, .read 0, .test 0, .test 1, .read 0, .read 1] _ _
    (by decide) rfl 3 (by decide)
  exact absurd hlt (by decide)

end SharedPool

end Lars.Reporter
