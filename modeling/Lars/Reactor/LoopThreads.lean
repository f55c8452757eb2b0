import Mathlib.Algebra.Order.Ring.Int
import Mathlib.Data.Int.Notation
import Mathlib.Logic.Function.Basic
import Mathlib.Tactic.SplitIfs
import Lars.Foundations.Run

/-!
# Loops in threads of their own

`event_loop_thread_pool::start` (`lars_reactor/src/event_loop_thread_pool.cc`) starts one
`event_loop_thread` after the other and collects their loops. `event_loop_thread::start`
(`event_loop_thread.cc`) creates a thread, and waits with a mutex and a condition variable until
`m_loop` is not null. `thread_func` stores its loop in `m_loop` and notifies, without the mutex: if
it does so between the test of `m_loop` and the wait, nobody is left to wake the one who waits.

A step is one of the starting thread, or of a thread started. Reads and writes of `m_loop` are
steps.

* `loops_of_run`: in every run, the loops collected are those of the threads, in order, and no
  assertion fails.
* `startable_iff`: `start` can come to its end, without a wake-up that nobody has sent, if and only
  if the thread being started has not notified between the test and the wait.
-/

namespace Lars.Reactor

open Machine

/-- Where the thread is that calls `start`. -/
inductive StarterAt
  /-- At the head of the loop of `event_loop_thread_pool::start`. -/
  | next
  /-- The thread has been created, and the mutex is still to be locked. -/
  | locking
  /-- About to test `m_loop`. -/
  | testing
  /-- `m_loop` has been null. -/
  | entering
  | waiting
  /-- `m_loop` has not been null. -/
  | returning
  | done
  deriving DecidableEq

/-- Where a thread is in `thread_func`. -/
inductive LoopThreadAt
  | absent
  | starting
  /-- `m_loop` has been set. -/
  | stored
  /-- The condition variable has been notified, and the loop runs. -/
  | looping
  deriving DecidableEq

/-- `event_loop_thread_pool::start`, with the threads in the order of their creation. A loop is the
number of its thread. -/
structure PoolStart where
  threadNum : ℤ
  starter : StarterAt := .next
  threads : ℕ → LoopThreadAt := fun _ => .absent
  loops : List ℕ := []

/-- A step of the starting thread or of another, or a wake-up that nobody has sent. -/
inductive StartEvent
  | starter
  | thread (i : ℕ)
  | spurious
  deriving DecidableEq

/-- Why a step is not made. -/
inductive StartError
  | disabled
  | assertion

namespace PoolStart

/-- The number of the thread that is being started. -/
def current (s : PoolStart) : ℕ := s.loops.length

/-- `m_loop` of a thread. -/
def mLoop (s : PoolStart) (i : ℕ) : Option ℕ :=
  match s.threads i with
  | .stored => some i
  | .looping => some i
  | _ => none

/-- A step. -/
def step (s : PoolStart) : StartEvent → Except StartError (Unit × PoolStart)
  | .starter =>
    match s.starter with
    | .next =>
      if (s.current : ℤ) < s.threadNum then
        .ok ((), { s with
          starter := .locking
          threads := Function.update s.threads s.current .starting })
      else .ok ((), { s with starter := .done })
    | .locking => .ok ((), { s with starter := .testing })
    | .testing =>
      if (s.mLoop s.current).isNone then .ok ((), { s with starter := .entering })
      else .ok ((), { s with starter := .returning })
    | .entering => .ok ((), { s with starter := .waiting })
    | .waiting => .error .disabled
    | .returning =>
      match s.mLoop s.current with
      | none => .error .assertion
      | some loop => .ok ((), { s with starter := .next, loops := s.loops ++ [loop] })
    | .done => .error .disabled
  | .thread i =>
    match s.threads i with
    | .starting => .ok ((), { s with threads := Function.update s.threads i .stored })
    | .stored =>
      .ok ((), { s with
        starter := if s.starter = .waiting ∧ i = s.current then .testing else s.starter
        threads := Function.update s.threads i .looping })
    | _ => .error .disabled
  | .spurious =>
    match s.starter with
    | .waiting => .ok ((), { s with starter := .testing })
    | _ => .error .disabled

/-- What a step does. -/
inductive Made (s : PoolStart) : StartEvent → PoolStart → Prop
  | create (h : s.starter = .next) (hlt : (s.current : ℤ) < s.threadNum) :
    Made s .starter { s with
      starter := .locking
      threads := Function.update s.threads s.current .starting }
  | finish (h : s.starter = .next) (hle : s.threadNum ≤ s.current) :
    Made s .starter { s with starter := .done }
  | lock (h : s.starter = .locking) : Made s .starter { s with starter := .testing }
  | null (h : s.starter = .testing) (hloop : s.mLoop s.current = none) :
    Made s .starter { s with starter := .entering }
  | found (h : s.starter = .testing) {loop : ℕ} (hloop : s.mLoop s.current = some loop) :
    Made s .starter { s with starter := .returning }
  | wait (h : s.starter = .entering) : Made s .starter { s with starter := .waiting }
  | collect (h : s.starter = .returning) {loop : ℕ} (hloop : s.mLoop s.current = some loop) :
    Made s .starter { s with starter := .next, loops := s.loops ++ [loop] }
  | store {i : ℕ} (h : s.threads i = .starting) :
    Made s (.thread i) { s with threads := Function.update s.threads i .stored }
  | notify {i : ℕ} (h : s.threads i = .stored) :
    Made s (.thread i) { s with
      starter := if s.starter = .waiting ∧ i = s.current then .testing else s.starter
      threads := Function.update s.threads i .looping }
  | spurious (h : s.starter = .waiting) : Made s .spurious { s with starter := .testing }

theorem made_of_step {s s' : PoolStart} {e : StartEvent} {o : Unit}
    (h : step s e = .ok (o, s')) : Made s e s' := by
  cases e with
  | starter =>
    simp only [step] at h
    split at h
    · next hat =>
      split_ifs at h with hlt <;> cases h
      · exact .create hat hlt
      · exact .finish hat (not_lt.mp hlt)
    · cases h
      exact .lock ‹_›
    · next hat =>
      split_ifs at h with hnone <;> cases h
      · exact .null hat (Option.isNone_iff_eq_none.mp hnone)
      · obtain ⟨loop, hloop⟩ := Option.ne_none_iff_exists'.mp
          fun hnil => hnone (Option.isNone_iff_eq_none.mpr hnil)
        exact .found hat hloop
    · cases h
      exact .wait ‹_›
    · cases h
    · next hat =>
      split at h <;> cases h
      exact .collect hat ‹_›
    · cases h
  | thread i =>
    simp only [step] at h
    split at h <;> cases h
    · exact .store ‹_›
    · exact .notify ‹_›
  | spurious =>
    simp only [step] at h
    split at h <;> cases h
    exact .spurious ‹_›

theorem mLoop_eq_some {s : PoolStart} {i loop : ℕ} :
    s.mLoop i = some loop ↔ (s.threads i = .stored ∨ s.threads i = .looping) ∧ loop = i := by
  unfold mLoop
  cases s.threads i <;> simp [eq_comm]

theorem mLoop_eq_none {s : PoolStart} {i : ℕ} :
    s.mLoop i = none ↔ s.threads i = .absent ∨ s.threads i = .starting := by
  unfold mLoop
  cases s.threads i <;> simp

/-! ## The loops collected -/

/-- The threads whose loops have been collected have set `m_loop`, the one being started exists,
and no other does; and there are as many as there should be when the end is reached. -/
structure Sound (s : PoolStart) : Prop where
  loops : s.loops = List.range s.current
  ready : ∀ i, i < s.current → s.mLoop i = some i
  started : s.starter ≠ .next → s.starter ≠ .done →
    s.threads s.current ≠ .absent ∧ (s.current : ℤ) < s.threadNum
  absent : ∀ i, s.current < i ∨ (s.starter = .next ∨ s.starter = .done) ∧ s.current ≤ i →
    s.threads i = .absent
  returning : s.starter = .returning → s.mLoop s.current = some s.current
  le : s.current ≤ s.threadNum.toNat
  done : s.starter = .done → s.current = s.threadNum.toNat

theorem sound_start (threadNum : ℤ) : Sound { threadNum } where
  loops := rfl
  ready _ h := absurd h (Nat.not_lt_zero _)
  started h := absurd rfl h
  absent _ _ := rfl
  returning h := nomatch h
  le := Nat.zero_le _
  done h := nomatch h

/-- The starting thread goes on with a thread that exists. -/
theorem Sound.move {s : PoolStart} (h : s.Sound) (hold : s.starter ≠ .next ∧ s.starter ≠ .done)
    {at' : StarterAt} (hnext : at' ≠ .next) (hdone : at' ≠ .done)
    (hreturning : at' = .returning → s.mLoop s.current = some s.current) :
    Sound { s with starter := at' } where
  loops := h.loops
  ready := h.ready
  started _ _ := h.started hold.1 hold.2
  absent i hi := h.absent i <| hi.imp_right fun ⟨hat, _⟩ => absurd hat (not_or.mpr ⟨hnext, hdone⟩)
  returning := hreturning
  le := h.le
  done hat := absurd hat hdone

/-- A thread sets `m_loop`, or goes on. -/
theorem Sound.thread {s : PoolStart} (h : s.Sound) {i : ℕ} (hi : s.threads i ≠ .absent)
    {at' : LoopThreadAt} (hat : at' = .stored ∨ at' = .looping) :
    Sound { s with threads := Function.update s.threads i at' } := by
  have hloop : ∀ {j}, s.mLoop j = some j →
      mLoop { s with threads := Function.update s.threads i at' } j = some j := by
    intro j hj
    refine mLoop_eq_some.mpr ⟨?_, rfl⟩
    dsimp only
    rw [Function.update_apply]
    split_ifs
    · exact hat
    · exact (mLoop_eq_some.mp hj).1
  have hne : ∀ {j}, s.threads j = .absent → Function.update s.threads i at' j = .absent := by
    intro j hj
    have hij : j ≠ i := by
      rintro rfl
      exact hi hj
    rwa [Function.update_of_ne hij]
  refine ⟨h.loops, fun j hj => hloop (h.ready j hj), fun hnext hdone => ?_,
    fun j hj => hne (h.absent j hj), fun hret => hloop (h.returning hret), h.le, h.done⟩
  obtain ⟨hthread, hlt⟩ := h.started hnext hdone
  refine ⟨?_, hlt⟩
  change Function.update s.threads i at' s.current ≠ .absent
  rw [Function.update_apply]
  split_ifs
  · rcases hat with rfl | rfl <;> nofun
  · exact hthread

/-- **The step.** -/
theorem Sound.step {s s' : PoolStart} {e : StartEvent} (h : s.Sound) (hstep : Made s e s') :
    s'.Sound := by
  cases hstep with
  | create hat hlt =>
    refine ⟨h.loops, fun i hi => ?_, fun _ _ => ⟨?_, hlt⟩, fun i hi => ?_, nofun, h.le, nofun⟩
    · have hne : i ≠ s.current := hi.ne
      refine mLoop_eq_some.mpr ⟨?_, rfl⟩
      simpa only [Function.update_of_ne hne] using (mLoop_eq_some.mp (h.ready i hi)).1
    · change Function.update s.threads s.current .starting s.current ≠ .absent
      rw [Function.update_self]
      nofun
    · rcases hi with hi | ⟨hi | hi, -⟩
      · have hne : i ≠ s.current := Nat.ne_of_gt hi
        simpa only [Function.update_of_ne hne] using h.absent i (.inl hi)
      · cases hi
      · cases hi
  | finish hat hle =>
    refine ⟨h.loops, h.ready, fun _ hdone => absurd rfl hdone, fun i hi => ?_, nofun, h.le,
      fun _ => ?_⟩
    · exact h.absent i (hi.imp_right fun ⟨_, hi⟩ => ⟨.inl hat, hi⟩)
    · have hle' := h.le
      change s.current = s.threadNum.toNat
      omega
  | lock hat => exact h.move (by simp [hat]) nofun nofun nofun
  | null hat hloop => exact h.move (by simp [hat]) nofun nofun nofun
  | found hat hloop =>
    refine h.move (by simp [hat]) nofun nofun fun _ => ?_
    obtain ⟨-, rfl⟩ := mLoop_eq_some.mp hloop
    exact hloop
  | wait hat => exact h.move (by simp [hat]) nofun nofun nofun
  | collect hat hloop =>
    rename_i loop
    obtain ⟨hready, rfl⟩ := mLoop_eq_some.mp hloop
    have hcurrent : (s.loops ++ [s.current]).length = s.current + 1 := by
      rw [List.length_append]
      rfl
    have hlt := (h.started (by simp [hat]) (by simp [hat])).2
    refine ⟨?_, fun i hi => ?_, fun hnext => absurd rfl hnext, fun i hi => ?_, nofun, ?_, nofun⟩
    · change s.loops ++ [s.current] = List.range (s.loops ++ [s.current]).length
      rw [hcurrent, List.range_succ, ← h.loops]
    · change i < (s.loops ++ [s.current]).length at hi
      rw [hcurrent] at hi
      rcases Nat.lt_succ_iff_lt_or_eq.mp hi with hi | rfl
      · exact h.ready i hi
      · exact hloop
    · have hi : s.current < i := by
        change (s.loops ++ [s.current]).length < i ∨
          _ ∧ (s.loops ++ [s.current]).length ≤ i at hi
        rw [hcurrent] at hi
        omega
      exact h.absent i (.inl hi)
    · change (s.loops ++ [s.current]).length ≤ s.threadNum.toNat
      rw [hcurrent]
      omega
  | store hi => exact h.thread (by simp [hi]) (.inl rfl)
  | notify hi =>
    rename_i i
    have hthread := h.thread (i := i) (by simp [hi]) (.inr rfl)
    split_ifs with hwake
    · exact hthread.move (by simp [hwake.1]) nofun nofun nofun
    · exact hthread
  | spurious hat => exact h.move (by simp [hat]) nofun nofun nofun

theorem Made.threadNum {s s' : PoolStart} {e : StartEvent} (h : Made s e s') :
    s'.threadNum = s.threadNum := by
  cases h <;> rfl

theorem sound_of_run {threadNum : ℤ} {es : List StartEvent} {outs : List Unit} {s : PoolStart}
    (h : run step { threadNum } es = .ok (outs, s)) : s.Sound ∧ s.threadNum = threadNum :=
  run_invariant (P := fun s => Sound s ∧ s.threadNum = threadNum)
    (fun _ _ _ _ hs hstep =>
      ⟨hs.1.step (made_of_step hstep), (made_of_step hstep).threadNum.trans hs.2⟩)
    ⟨sound_start threadNum, rfl⟩ h

/-- **The loops collected** are those of the threads, in order, each thread having set its
`m_loop`; at the end there are as many as there should be. No assertion fails. -/
theorem loops_of_run {threadNum : ℤ} {es : List StartEvent} {outs : List Unit} {s : PoolStart}
    (h : run step { threadNum } es = .ok (outs, s)) :
    s.loops = List.range s.loops.length ∧ (∀ l ∈ s.loops, s.mLoop l = some l) ∧
      (s.starter = .done → s.loops.length = threadNum.toNat) ∧
      ∀ e, step s e ≠ .error .assertion := by
  obtain ⟨hs, rfl⟩ := sound_of_run h
  refine ⟨hs.loops, fun l hl => ?_, hs.done, fun e he => ?_⟩
  · rw [hs.loops, List.mem_range] at hl
    exact hs.ready l hl
  · cases e with
    | starter =>
      simp only [step] at he
      split at he
      · split_ifs at he
      · cases he
      · split_ifs at he
      · cases he
      · cases he
      · next hat =>
        rw [hs.returning hat] at he
        cases he
      · cases he
    | thread i =>
      simp only [step] at he
      split at he <;> cases he
    | spurious =>
      simp only [step] at he
      split at he <;> cases he

/-- Two threads, and a wake-up that nobody has sent. -/
def twoThreads : List StartEvent :=
  [.starter, .starter, .starter, .starter, .spurious, .starter, .starter, .thread 0, .thread 0,
    .starter, .starter, .starter, .starter, .thread 1, .starter, .starter, .starter]

theorem loops_of_run_two : ∃ outs s, run step { threadNum := 2 } twoThreads = .ok (outs, s) ∧
    s.loops = List.range s.loops.length ∧ (∀ l ∈ s.loops, s.mLoop l = some l) ∧
    (s.starter = .done → s.loops.length = (2 : ℤ).toNat) ∧
    ∀ e, step s e ≠ .error .assertion := by
  have h : run step { threadNum := 2 } twoThreads = .ok (_, _) := rfl
  exact ⟨_, _, h, loops_of_run h⟩

/-! ## Notifications that are lost -/

/-- Nobody is left to wake the starting thread. -/
def Stuck (s : PoolStart) : Prop :=
  (s.starter = .entering ∨ s.starter = .waiting) ∧ s.threads s.current = .looping

/-- The step is not a notification, by the thread being started, between the test and the wait. -/
def Heard (s : PoolStart) : StartEvent → Prop
  | .thread i => s.threads i = .stored → i = s.current → s.starter ≠ .entering
  | _ => True

/-- Without a wake-up that nobody has sent, it stays so. -/
theorem Stuck.step {s s' : PoolStart} {e : StartEvent} (h : s.Stuck) (he : e ≠ .spurious)
    (hstep : Made s e s') : s'.Stuck := by
  obtain ⟨hat, hthread⟩ := h
  cases hstep with
  | create h => simp [h] at hat
  | finish h => simp [h] at hat
  | lock h => simp [h] at hat
  | null h => simp [h] at hat
  | found h => simp [h] at hat
  | collect h => simp [h] at hat
  | wait h => exact ⟨.inr rfl, hthread⟩
  | store hi =>
    rename_i i
    have hne : s.current ≠ i := by
      rintro rfl
      rw [hthread] at hi
      cases hi
    exact ⟨hat, (Function.update_of_ne hne _ _).trans hthread⟩
  | notify hi =>
    rename_i i
    have hne : s.current ≠ i := by
      rintro rfl
      rw [hthread] at hi
      cases hi
    refine ⟨?_, (Function.update_of_ne hne _ _).trans hthread⟩
    rw [if_neg fun h => hne h.2.symm]
    exact hat
  | spurious => exact absurd rfl he

theorem Stuck.run {es : List StartEvent} (hes : ∀ e ∈ es, e ≠ .spurious) :
    ∀ {s s' : PoolStart} {outs : List Unit}, s.Stuck → Machine.run PoolStart.step s es =
      .ok (outs, s') → s'.Stuck := by
  induction es with
  | nil =>
    intro s s' outs hs h
    cases h
    exact hs
  | cons e es ih =>
    intro s s' outs hs h
    obtain ⟨he, hes⟩ := List.forall_mem_cons.mp hes
    obtain ⟨o, s₁, os, hstep, hrun, -⟩ := run_cons_eq_ok.mp h
    exact ih hes (hs.step he (made_of_step hstep)) hrun

/-- **The step**: the starting thread gets stuck by a notification between the test and the wait,
and in no other way. -/
theorem stuck_step_iff {s s' : PoolStart} {e : StartEvent} (h : ¬ s.Stuck) (he : e ≠ .spurious)
    (hstep : Made s e s') : s'.Stuck ↔ ¬ s.Heard e := by
  cases hstep with
  | create => exact iff_of_false (by simp [Stuck]) (not_not_intro trivial)
  | finish => exact iff_of_false (by simp [Stuck]) (not_not_intro trivial)
  | lock => exact iff_of_false (by simp [Stuck]) (not_not_intro trivial)
  | found => exact iff_of_false (by simp [Stuck]) (not_not_intro trivial)
  | collect => exact iff_of_false (by simp [Stuck]) (not_not_intro trivial)
  | null hat hloop =>
    refine iff_of_false ?_ (not_not_intro trivial)
    rintro ⟨-, hthread⟩
    have hthread : s.threads s.current = .looping := hthread
    rcases mLoop_eq_none.mp hloop with hnone | hnone <;> rw [hnone] at hthread <;> cases hthread
  | wait hat =>
    exact iff_of_false (fun hstuck => h ⟨.inl hat, hstuck.2⟩) (not_not_intro trivial)
  | store hi =>
    rename_i i
    refine iff_of_false ?_ (not_not_intro fun hstored => ?_)
    · rintro ⟨hat, hthread⟩
      have hthread : Function.update s.threads i .stored s.current = .looping := hthread
      rw [Function.update_apply] at hthread
      split_ifs at hthread
      exact h ⟨hat, hthread⟩
    · rw [hi] at hstored
      cases hstored
  | notify hi =>
    rename_i i
    by_cases hcur : i = s.current
    · subst hcur
      have hthread : Function.update s.threads s.current .looping s.current = .looping :=
        Function.update_self ..
      have hheard : ¬ s.Heard (.thread s.current) ↔ s.starter = .entering := by
        simp [Heard, hi]
      rw [hheard]
      constructor
      · rintro ⟨hat, -⟩
        split_ifs at hat with hwake
        · simp at hat
        · exact hat.resolve_right fun hw => hwake ⟨hw, rfl⟩
      · intro hat
        refine ⟨.inl ?_, hthread⟩
        simp [hat]
    · refine iff_of_false ?_ (not_not_intro fun _ heq => absurd heq hcur)
      rintro ⟨hat, hthread⟩
      rw [if_neg fun hw => hcur hw.2] at hat
      exact h ⟨hat, (Function.update_of_ne (Ne.symm hcur) _ _).symm.trans hthread⟩
  | spurious => exact absurd rfl he

/-- In a run without wake-ups that nobody has sent, the starting thread has got stuck if and only if
a notification has come between a test and a wait. -/
theorem not_stuck_iff_along {es : List StartEvent} (hes : ∀ e ∈ es, e ≠ .spurious) :
    ∀ {s s' : PoolStart} {outs : List Unit}, ¬ s.Stuck → run step s es = .ok (outs, s') →
      (¬ s'.Stuck ↔ Along step Heard s es) := by
  induction es with
  | nil =>
    intro s s' outs hs h
    cases h
    exact iff_of_true hs trivial
  | cons e es ih =>
    intro s s' outs hs h
    obtain ⟨he, hes⟩ := List.forall_mem_cons.mp hes
    obtain ⟨o, s₁, os, hstep, hrun, -⟩ := run_cons_eq_ok.mp h
    have hmade := made_of_step hstep
    have hiff := stuck_step_iff hs he hmade
    by_cases hheard : s.Heard e
    · rw [ih hes (fun hs₁ => hiff.mp hs₁ hheard) hrun]
      refine ⟨fun halong => ⟨hheard, fun o' s₁' hstep' => ?_⟩, fun halong => halong.2 o s₁ hstep⟩
      rw [hstep] at hstep'
      cases hstep'
      exact halong
    · refine iff_of_false (not_not_intro ?_) fun halong => hheard halong.1
      exact (hiff.mpr hheard).run hes hrun

/-! ## The end of `start` -/

/-- The steps of the threads can lead to a state like this, without a wake-up that nobody has sent.
-/
def Leads (s : PoolStart) (P : PoolStart → Prop) : Prop :=
  ∃ es outs s', (∀ e ∈ es, e ≠ .spurious) ∧ run step s es = .ok (outs, s') ∧ P s'

theorem leads_here {s : PoolStart} {P : PoolStart → Prop} (h : P s) : s.Leads P :=
  ⟨[], [], s, fun _ h => absurd h List.not_mem_nil, rfl, h⟩

theorem leads_step {s s' : PoolStart} {e : StartEvent} {P : PoolStart → Prop}
    (hstep : step s e = .ok ((), s')) (he : e ≠ .spurious) (h : s'.Leads P) : s.Leads P := by
  obtain ⟨es, outs, s'', hes, hrun, hP⟩ := h
  refine ⟨e :: es, () :: outs, s'', ?_, run_cons_eq_ok.mpr ⟨_, _, _, hstep, hrun, rfl⟩, hP⟩
  exact List.forall_mem_cons.mpr ⟨he, hes⟩

theorem Leads.trans {s : PoolStart} {P Q : PoolStart → Prop} (h : s.Leads P)
    (hPQ : ∀ s', P s' → s'.Leads Q) : s.Leads Q := by
  obtain ⟨es, outs, s', hes, hrun, hP⟩ := h
  obtain ⟨es', outs', s'', hes', hrun', hQ⟩ := hPQ s' hP
  refine ⟨es ++ es', outs ++ outs', s'', fun e he => ?_, run_append_ok hrun hrun', hQ⟩
  exact (List.mem_append.mp he).elim (hes e) (hes' e)

/-- The loop of the thread being started is collected. -/
def Collected (s s' : PoolStart) : Prop :=
  s'.starter = .next ∧ s'.threadNum = s.threadNum ∧ s'.current = s.current + 1

theorem leads_of_returning {s : PoolStart} (hat : s.starter = .returning)
    (hloop : s.mLoop s.current = some s.current) : s.Leads s.Collected := by
  have hstep : step s .starter =
      .ok ((), { s with starter := .next, loops := s.loops ++ [s.current] }) := by
    simp only [step, hat, hloop]
  exact leads_step hstep nofun (leads_here ⟨rfl, rfl, List.length_append⟩)

/-- From a test on, whether `m_loop` is set or not. -/
theorem leads_of_testing {s : PoolStart} (hat : s.starter = .testing)
    (hthread : s.threads s.current ≠ .absent) : s.Leads s.Collected := by
  have hset : ∀ {s : PoolStart}, s.starter = .testing → s.mLoop s.current = some s.current →
      s.Leads s.Collected := by
    intro s hat hloop
    have hstep : step s .starter = .ok ((), { s with starter := .returning }) := by
      simp [step, hat, hloop]
    exact leads_step hstep nofun (leads_of_returning rfl hloop)
  cases hcur : s.threads s.current with
  | absent => exact absurd hcur hthread
  | starting =>
    have hstore : step s (.thread s.current) =
        .ok ((), { s with threads := Function.update s.threads s.current .stored }) := by
      simp only [step, hcur]
    refine leads_step hstore nofun (hset hat ?_)
    exact mLoop_eq_some.mpr ⟨.inl (Function.update_self ..), rfl⟩
  | stored => exact hset hat (mLoop_eq_some.mpr ⟨.inl hcur, rfl⟩)
  | looping => exact hset hat (mLoop_eq_some.mpr ⟨.inr hcur, rfl⟩)

theorem leads_of_waiting {s : PoolStart} (hat : s.starter = .waiting)
    (hthread : s.threads s.current ≠ .absent) (hstuck : ¬ s.Stuck) : s.Leads s.Collected := by
  have hnotify : ∀ {s : PoolStart}, s.starter = .waiting → s.threads s.current = .stored →
      s.Leads s.Collected := by
    intro s hat hcur
    have hstep : step s (.thread s.current) = .ok ((), { s with
        starter := .testing
        threads := Function.update s.threads s.current .looping }) := by
      simp [step, hcur, hat]
    refine leads_step hstep nofun (leads_of_testing rfl ?_)
    simp [current]
  cases hcur : s.threads s.current with
  | absent => exact absurd hcur hthread
  | starting =>
    have hstore : step s (.thread s.current) =
        .ok ((), { s with threads := Function.update s.threads s.current .stored }) := by
      simp only [step, hcur]
    exact leads_step hstore nofun (hnotify hat (Function.update_self ..))
  | stored => exact hnotify hat hcur
  | looping => exact absurd ⟨.inr hat, hcur⟩ hstuck

/-- The thread being started comes to its end, unless the starting thread is stuck. -/
theorem leads_collected {s : PoolStart} (hs : s.Sound) (hnext : s.starter ≠ .next)
    (hdone : s.starter ≠ .done) (hstuck : ¬ s.Stuck) : s.Leads s.Collected := by
  have hthread := (hs.started hnext hdone).1
  cases hat : s.starter with
  | next => exact absurd hat hnext
  | locking =>
    have hstep : step s .starter = .ok ((), { s with starter := .testing }) := by
      simp only [step, hat]
    exact leads_step hstep nofun (leads_of_testing rfl hthread)
  | testing => exact leads_of_testing hat hthread
  | entering =>
    have hstep : step s .starter = .ok ((), { s with starter := .waiting }) := by
      simp only [step, hat]
    exact leads_step hstep nofun (leads_of_waiting rfl hthread fun h => hstuck ⟨.inl hat, h.2⟩)
  | waiting => exact leads_of_waiting hat hthread hstuck
  | returning => exact leads_of_returning hat (hs.returning hat)
  | done => exact absurd hat hdone

theorem Leads.sound {s : PoolStart} {P : PoolStart → Prop} (h : s.Leads P) (hs : s.Sound) :
    s.Leads fun s' => P s' ∧ s'.Sound := by
  obtain ⟨es, outs, s', hes, hrun, hP⟩ := h
  refine ⟨es, outs, s', hes, hrun, hP, ?_⟩
  exact run_invariant (P := Sound) (fun _ _ _ _ hs hstep => hs.step (made_of_step hstep)) hs hrun

/-- `start` has come to its end, with all loops. -/
def Started (threadNum : ℤ) (s : PoolStart) : Prop :=
  s.starter = .done ∧ s.loops = List.range threadNum.toNat

/-- From the head of the loop on: by induction on the number of threads left. -/
theorem leads_of_next {n : ℕ} : ∀ {s : PoolStart}, s.Sound → s.starter = .next →
    s.threadNum.toNat - s.current = n → s.Leads (Started s.threadNum) := by
  induction n with
  | zero =>
    intro s hs hat hn
    have hle := hs.le
    have hstep : step s .starter = .ok ((), { s with starter := .done }) := by
      simp only [step, hat]
      rw [if_neg (by omega)]
    refine leads_step hstep nofun (leads_here ⟨rfl, ?_⟩)
    have hcurrent : s.current = s.threadNum.toNat := by omega
    exact hcurrent ▸ hs.loops
  | succ n ih =>
    intro s hs hat hn
    have hstep : step s .starter = .ok ((), { s with
        starter := .locking
        threads := Function.update s.threads s.current .starting }) := by
      simp only [step, hat]
      rw [if_pos (by omega)]
    refine leads_step hstep nofun ?_
    have hs₁ := hs.step (made_of_step hstep)
    have hcollected := leads_collected hs₁ nofun nofun (by simp [Stuck])
    refine (hcollected.sound hs₁).trans ?_
    rintro s' ⟨⟨hat', hnum, hcurrent⟩, hs'⟩
    have hnum : s'.threadNum = s.threadNum := hnum
    have hcurrent : s'.current = s.current + 1 := hcurrent
    have hleads := ih hs' hat' (by omega)
    rwa [hnum] at hleads

/-- The starting thread comes to its end, unless it is stuck. -/
theorem leads_started {s : PoolStart} (hs : s.Sound) (hstuck : ¬ s.Stuck) :
    s.Leads (Started s.threadNum) := by
  by_cases hdone : s.starter = .done
  · exact leads_here ⟨hdone, hs.done hdone ▸ hs.loops⟩
  by_cases hnext : s.starter = .next
  · exact leads_of_next hs hnext rfl
  · refine ((leads_collected hs hnext hdone hstuck).sound hs).trans ?_
    rintro s' ⟨⟨hat', hnum, -⟩, hs'⟩
    have hleads := leads_of_next hs' hat' rfl
    rwa [hnum] at hleads

/-- **When `start` comes to its end.** After a run without a wake-up that nobody has sent, `start`
can still come to its end without one, and then with the loops of all threads, if and only if the
thread being started has not notified while the starting thread was between its test of `m_loop` and
its wait; one started earlier may still do so. -/
theorem startable_iff {threadNum : ℤ} {es : List StartEvent} (hes : ∀ e ∈ es, e ≠ .spurious)
    {outs : List Unit} {s : PoolStart} (h : run step { threadNum } es = .ok (outs, s)) :
    s.Leads (Started threadNum) ↔ Along step Heard { threadNum } es := by
  obtain ⟨hs, hnum⟩ := sound_of_run h
  have hstart : ¬ Stuck { threadNum } := by simp [Stuck]
  rw [← not_stuck_iff_along hes hstart h]
  constructor
  · rintro ⟨es', outs', s', hes', hrun, hdone, -⟩ hstuck
    rcases (hstuck.run hes' hrun).1 with hat | hat <;> rw [hat] at hdone <;> cases hdone
  · intro hstuck
    exact hnum ▸ leads_started hs hstuck

/-- The first of three threads stores its loop and notifies after the test and before the wait. -/
theorem not_startable : ∃ outs s,
    run step { threadNum := 3 } [.starter, .starter, .starter, .thread 0, .thread 0] =
      .ok (outs, s) ∧ ¬ s.Leads (Started 3) := by
  have hes : ∀ e ∈ [StartEvent.starter, .starter, .starter, .thread 0, .thread 0],
      e ≠ .spurious := by decide
  refine ⟨_, _, rfl, fun hleads => ?_⟩
  have halong := (startable_iff hes rfl).mp hleads
  exact (((((halong.2 _ _ rfl).2 _ _ rfl).2 _ _ rfl).2 _ _ rfl).1 rfl rfl) rfl

end PoolStart

end Lars.Reactor
