import Mathlib.Data.Finset.Basic
import Lars.Foundations.Run

/-!
# The task queue of a loop

Threads give each other work through the `task_queue` of a loop (`lars_reactor/src/task_queue.cc`).
`add` pushes a task under the mutex and then writes to an eventfd, which wakes the loop. The loop's
`deal_task` reads the eventfd, swaps the queue out under the mutex, and runs the tasks; a task may
itself add tasks.

The steps are those of the threads in `add` and of the loop in `deal_task`, in any order. A thread
is an `Option θ`, and `none` is the loop's own.

* Tasks are run once, in the order in which they were pushed, and a queue that is not empty has a
  wake-up pending (`tasks_of_run`).
* Left alone, `deal_task` runs all tasks that were in the queue (`run_dealTask`).
-/

namespace Lars.Reactor

open Machine

/-- Where the loop is. -/
inductive LoopAt (α : Type)
  /-- Outside `deal_task`. -/
  | waiting
  /-- In `get`, between `read` and `std::swap`. -/
  | reading
  /-- In `deal_task`, with tasks left to run. -/
  | dealing (tasks : List α)
  /-- In the callback of a task, with tasks left to run after it. -/
  | running (task : α) (tasks : List α)
  deriving DecidableEq

/-- `task_queue`, with the counter of its eventfd, the threads that are in `add` between the push
and the write, and the loop. -/
structure TaskQueue (θ α : Type) where
  queue : List α := []
  counter : ℕ := 0
  adding : Finset (Option θ) := ∅
  loop : LoopAt α := .waiting

/-- The steps of the threads and of the loop. -/
inductive TaskStep (θ α : Type)
  /-- The push of `add`. -/
  | push (thread : Option θ) (task : α)
  /-- The write of `add`. -/
  | write (thread : Option θ)
  /-- The read of `get`, which leaves the counter at zero, also if it was so and the read fails. -/
  | read
  /-- The `std::swap` of `get`. -/
  | swap
  /-- The next task is popped and its callback called. -/
  | call
  /-- The callback returns. -/
  | finish
  /-- `deal_task` returns. -/
  | done
  deriving DecidableEq

namespace TaskQueue

variable {θ α : Type}

/-- The loop's thread adds tasks in the callbacks of tasks. -/
def mayPush (s : TaskQueue θ α) : Option θ → Bool
  | some _ => true
  | none =>
    match s.loop with
    | .running _ _ => true
    | _ => false

variable [DecidableEq θ]

/-- A step, with the task whose callback it calls. -/
def step (s : TaskQueue θ α) : TaskStep θ α → Except Disabled (Option α × TaskQueue θ α)
  | .push thread task =>
    if s.mayPush thread ∧ thread ∉ s.adding then
      .ok (none, { s with queue := s.queue ++ [task], adding := insert thread s.adding })
    else .error .disabled
  | .write thread =>
    if thread ∈ s.adding then
      .ok (none, { s with counter := s.counter + 1, adding := s.adding.erase thread })
    else .error .disabled
  | .read =>
    match s.loop with
    | .waiting => .ok (none, { s with counter := 0, loop := .reading })
    | _ => .error .disabled
  | .swap =>
    match s.loop with
    | .reading => .ok (none, { s with queue := [], loop := .dealing s.queue })
    | _ => .error .disabled
  | .call =>
    match s.loop with
    | .dealing (task :: tasks) => .ok (some task, { s with loop := .running task tasks })
    | _ => .error .disabled
  | .finish =>
    match s.loop with
    | .running _ tasks =>
      if none ∈ s.adding then .error .disabled
      else .ok (none, { s with loop := .dealing tasks })
    | _ => .error .disabled
  | .done =>
    match s.loop with
    | .dealing [] => .ok (none, { s with loop := .waiting })
    | _ => .error .disabled

/-- What a step does. -/
inductive Made (s : TaskQueue θ α) : TaskStep θ α → Option α → TaskQueue θ α → Prop
  | push {thread : Option θ} {task : α} : Made s (.push thread task) none
      { s with queue := s.queue ++ [task], adding := insert thread s.adding }
  | write {thread : Option θ} : Made s (.write thread) none
      { s with counter := s.counter + 1, adding := s.adding.erase thread }
  | read (h : s.loop = .waiting) : Made s .read none { s with counter := 0, loop := .reading }
  | swap (h : s.loop = .reading) :
    Made s .swap none { s with queue := [], loop := .dealing s.queue }
  | call {task : α} {tasks : List α} (h : s.loop = .dealing (task :: tasks)) :
    Made s .call (some task) { s with loop := .running task tasks }
  | finish {task : α} {tasks : List α} (h : s.loop = .running task tasks) :
    Made s .finish none { s with loop := .dealing tasks }
  | done (h : s.loop = .dealing []) : Made s .done none { s with loop := .waiting }

theorem made_of_step {s s' : TaskQueue θ α} {e : TaskStep θ α} {o : Option α}
    (h : step s e = .ok (o, s')) : Made s e o s' := by
  cases e with
  | push thread task =>
    simp only [step] at h
    split at h <;> cases h
    exact .push
  | write thread =>
    simp only [step] at h
    split at h <;> cases h
    exact .write
  | read =>
    simp only [step] at h
    split at h <;> cases h
    exact .read ‹_›
  | swap =>
    simp only [step] at h
    split at h <;> cases h
    exact .swap ‹_›
  | call =>
    simp only [step] at h
    split at h <;> cases h
    exact .call ‹_›
  | finish =>
    simp only [step] at h
    split at h
    · split at h <;> cases h
      exact .finish ‹_›
    · cases h
  | done =>
    simp only [step] at h
    split at h <;> cases h
    exact .done ‹_›

/-! ## Once and in order -/

/-- The tasks a step pushes. -/
def pushes : TaskStep θ α → List α
  | .push _ task => [task]
  | _ => []

/-- The tasks taken out of the queue and not yet run. -/
def batch (s : TaskQueue θ α) : List α :=
  match s.loop with
  | .waiting => []
  | .reading => []
  | .dealing tasks => tasks
  | .running _ tasks => tasks

/-- The tasks pushed and not yet run. -/
def backlog (s : TaskQueue θ α) : List α := s.batch ++ s.queue

/-- A step runs the first of the tasks that wait, or none, and a task pushed comes last. -/
theorem Made.conserves {s s' : TaskQueue θ α} {e : TaskStep θ α} {o : Option α}
    (h : Made s e o s') : s.backlog ++ pushes e = o.toList ++ s'.backlog := by
  cases h with
  | push => exact List.append_assoc _ _ _
  | write => exact List.append_nil _
  | read h => simp [backlog, batch, pushes, h]
  | swap h => simp [backlog, batch, pushes, h]
  | call h => simp [backlog, batch, pushes, h]
  | finish h => simp [backlog, batch, pushes, h]
  | done h => simp [backlog, batch, pushes, h]

/-! ## No wake-up is lost -/

/-- A wake-up is pending: the eventfd is readable, or a thread is about to write to it, or the loop
has read it and is about to look into the queue. -/
def WakeUp (s : TaskQueue θ α) : Prop :=
  0 < s.counter ∨ s.adding.Nonempty ∨ s.loop = .reading

theorem Made.wakeUp {s s' : TaskQueue θ α} {e : TaskStep θ α} {o : Option α} (h : Made s e o s')
    (hs : s.queue ≠ [] → s.WakeUp) (hq : s'.queue ≠ []) : s'.WakeUp := by
  cases h with
  | push => exact Or.inr (Or.inl (Finset.insert_nonempty _ _))
  | write => exact Or.inl (Nat.succ_pos _)
  | read => exact Or.inr (Or.inr rfl)
  | swap => exact absurd rfl hq
  | call h => exact (hs hq).imp_right fun h' => h'.imp_right fun hr => by simp [h] at hr
  | finish h => exact (hs hq).imp_right fun h' => h'.imp_right fun hr => by simp [h] at hr
  | done h => exact (hs hq).imp_right fun h' => h'.imp_right fun hr => by simp [h] at hr

variable {es : List (TaskStep θ α)} {outs : List (Option α)} {s s' : TaskQueue θ α}

/-- **Tasks are run once and in order, and no wake-up is lost**: whatever the threads and the loop
have done, the tasks pushed are those run and, behind them, those still held, in the same order, and
if there are tasks in the queue there is a wake-up pending. -/
theorem tasks_of_run (h : run step {} es = .ok (outs, s)) :
    es.flatMap pushes = outs.flatMap Option.toList ++ s.backlog ∧
      (s.queue ≠ [] → s.WakeUp) := by
  constructor
  · have hall : backlog {} ++ es.flatMap pushes = outs.flatMap Option.toList ++ s.backlog :=
      run_conserves (fun _ _ _ _ h => (made_of_step h).conserves) h
    exact hall
  · exact run_invariant (P := fun s : TaskQueue θ α => s.queue ≠ [] → s.WakeUp)
      (fun _ _ _ _ hs h => (made_of_step h).wakeUp hs) (fun hq => absurd rfl hq) h

/-- A task that adds a task, and one added from outside in between. -/
theorem tasks_of_run_reentrant : ∃ outs s,
    run step ({} : TaskQueue ℕ ℕ)
      [.push (some 0) 10, .write (some 0), .read, .swap, .call, .push none 11, .push (some 0) 12,
        .write none, .finish] = .ok (outs, s) ∧
    [10, 11, 12] = outs.flatMap Option.toList ++ s.backlog ∧ (s.queue ≠ [] → s.WakeUp) := by
  have h : run step ({} : TaskQueue ℕ ℕ)
      [.push (some 0) 10, .write (some 0), .read, .swap, .call, .push none 11, .push (some 0) 12,
        .write none, .finish] = .ok (_, _) := rfl
  exact ⟨_, _, h, tasks_of_run h⟩

/-! ## The calls alone -/

/-- `task_queue::add`. -/
def add (thread : Option θ) (task : α) : List (TaskStep θ α) := [.push thread task, .write thread]

/-- `task_queue::deal_task` on the tasks `tasks`. -/
def dealTask (tasks : List α) : List (TaskStep θ α) :=
  [.read, .swap] ++ tasks.flatMap (fun _ => [.call, .finish]) ++ [.done]

/-- Left alone, `add` leaves its task last in the queue, and the eventfd readable. -/
theorem run_add {thread : Option θ} (task : α) (hmay : s.mayPush thread = true)
    (hthread : thread ∉ s.adding) :
    run step s (add thread task) =
      .ok ([none, none], { s with queue := s.queue ++ [task], counter := s.counter + 1 }) := by
  have hpush : step s (.push thread task) =
      .ok (none, { s with queue := s.queue ++ [task], adding := insert thread s.adding }) :=
    if_pos ⟨hmay, hthread⟩
  have hwrite : step { s with queue := s.queue ++ [task], adding := insert thread s.adding }
      (.write thread) =
      .ok (none, { s with queue := s.queue ++ [task], counter := s.counter + 1 }) := by
    rw [step, if_pos (Finset.mem_insert_self thread s.adding), Finset.erase_insert hthread]
  rw [add, run_cons_ok hpush, run_cons_ok hwrite, run_nil]

/-- The loop of `deal_task` on the tasks taken out. -/
theorem run_calls {tasks : List α} (hs : s.loop = .dealing tasks) (hnone : none ∉ s.adding) :
    ∃ outs, run step s (tasks.flatMap fun _ => [.call, .finish]) =
        .ok (outs, { s with loop := .dealing [] }) ∧
      outs.flatMap Option.toList = tasks := by
  induction tasks generalizing s with
  | nil => exact ⟨[], by rw [← hs]; rfl, rfl⟩
  | cons task tasks ih =>
    have hcall : step s .call = .ok (some task, { s with loop := .running task tasks }) := by
      simp only [step, hs]
    have hfinish : step { s with loop := .running task tasks } .finish =
        .ok (none, { s with loop := .dealing tasks }) := if_neg hnone
    obtain ⟨outs, hrun, houts⟩ := ih (s := { s with loop := .dealing tasks }) rfl hnone
    refine ⟨some task :: none :: outs, ?_, ?_⟩
    · exact run_cons_eq_ok.mpr ⟨_, _, _, hcall, run_cons_eq_ok.mpr ⟨_, _, _, hfinish, hrun, rfl⟩,
        rfl⟩
    · rw [List.flatMap_cons, List.flatMap_cons, houts]
      rfl

/-- **Left alone, `deal_task` runs all tasks in the queue**, in order. -/
theorem run_dealTask (hs : s.loop = .waiting) (hnone : none ∉ s.adding) :
    ∃ outs, run step s (dealTask s.queue) = .ok (outs, { s with queue := [], counter := 0 }) ∧
      outs.flatMap Option.toList = s.queue := by
  have hread : step s .read = .ok (none, { s with counter := 0, loop := .reading }) := by
    simp only [step, hs]
  obtain ⟨outs, hrun, houts⟩ := run_calls
    (s := { s with queue := [], counter := 0, loop := .dealing s.queue }) rfl hnone
  refine ⟨none :: none :: (outs ++ [none]), ?_, ?_⟩
  · refine run_cons_eq_ok.mpr ⟨none, _, _, hread, ?_, rfl⟩
    refine run_cons_eq_ok.mpr ⟨none, _, _, rfl, ?_, rfl⟩
    refine run_append_ok hrun ?_
    rw [hs]
    rfl
  · simp [houts]

end TaskQueue

end Lars.Reactor
