import Lars.Foundations.Run
import Lars.Reactor.TcpClient

/-!
# A pass of the event loop

`event_loop::loop` (`lars_reactor/src/event_loop.cc`) goes through the ready events that
`epoll_wait` has returned. For each it copies the descriptor's registration and then runs the
callbacks of the copy: for `EPOLLIN`, for `EPOLLOUT`, and both for `EPOLLHUP` or `EPOLLERR`. It does
not look at the registry again, nor at the events registered, so that a callback may run twice, and
may run after its registration has been deleted.

Callbacks are arbitrary code: `behave` says what calls of `add_io_event` and `del_io_event` a
callback makes, given all callbacks run so far. `LoopPass` carries, besides the registry, what the
pass has run and, for the statements only, counts of what its callbacks have deleted.

* `respects_iff`: the loop runs each callback at most once for a ready event, and none whose
  registration a callback of the pass has deleted, if and only if the event `Meets` a condition on
  its bits, the registration and what the read callback does;
* `pass_respects_iff`: so for a pass; and a client alone on its loop is never read from while it is
  not connected, unless `EPOLLHUP` or `EPOLLERR` comes together with `EPOLLIN`.
* `Kept.call_iff`: a call leaves a callback behind whose registration it has deleted if it is a
  `del_io_event` for a part of the events, and else not; so where callbacks do not make such calls,
  of the deletions only those matter that the read callback of the same event makes
  (`meets_iff_of_whole`).
-/

namespace Lars.Reactor

open Machine

/-- The two callbacks of a registration. -/
inductive Direction
  | read
  | write
  deriving DecidableEq

theorem Direction.forall {P : Direction → Prop} : (∀ d, P d) ↔ P .read ∧ P .write :=
  ⟨fun h => ⟨h .read, h .write⟩, fun h d => by cases d <;> simp [h]⟩

/-- The callback kept for a direction. -/
def IoEvent.callback {κ : Type} (ev : IoEvent κ) : Direction → Option κ
  | .read => ev.readCallback
  | .write => ev.writeCallback

/-- The event a callback is registered for. -/
def Direction.event : Direction → EventMask
  | .read => epollIn
  | .write => epollOut

/-- An entry of the array `epoll_wait` fills, and the answer of `epoll_ctl` should the loop delete
the descriptor. -/
structure Ready where
  fd : ℤ
  events : EventMask
  ctl : Bool

/-! ## The body of the loop -/

section Dispatch

variable {σ κ τ : Type}

/-- A callback called, if it is set. -/
def callIfSet (call : κ → σ → Except τ σ) : Option κ → σ → Except τ σ
  | none, s => .ok s
  | some proc, s => call proc s

/-- The body of the loop of `event_loop::loop`, on a state `σ` that holds the loop: `delIoEvent` is
the loop's own deletion of the descriptor, and `call` what a callback of the copied registration
does. -/
def EventLoop.dispatch (loop : σ → EventLoop κ) (delIoEvent : σ → σ)
    (call : Direction → κ → σ → Except τ σ) (r : Ready) (s : σ) : Except τ σ :=
  match (loop s).ioEvsMap r.fd with
  | none => .ok s
  | some ev => do
    let s ← (if r.events.has epollIn then callIfSet (call .read) ev.readCallback s else .ok s)
    let s ← (if r.events.has epollOut then callIfSet (call .write) ev.writeCallback s else .ok s)
    if r.events.has (epollHup ||| epollErr) then do
      let s := if ev.readCallback.isNone && ev.writeCallback.isNone then delIoEvent s else s
      let s ← callIfSet (call .read) ev.readCallback s
      callIfSet (call .write) ev.writeCallback s
    else .ok s

end Dispatch

/-- `EPOLLHUP` and `EPOLLERR` do not come together with an event that has a callback. -/
def EventLoop.Apart {κ : Type} (l : EventLoop κ) (r : Ready) : Prop :=
  ∀ ev, l.ioEvsMap r.fd = some ev → r.events.has (epollHup ||| epollErr) = true →
    (r.events.has epollIn = true → ev.readCallback = none) ∧
    (r.events.has epollOut = true → ev.writeCallback = none)

/-! ## A pass with callbacks that do anything -/

/-- A call that changes the registry, with the answer of `epoll_ctl`. -/
inductive RegCall (κ : Type)
  | add (fd : ℤ) (event : EventMask) (proc : κ) (ctl : Bool)
  | del (fd : ℤ) (ctl : Bool)
  | delMask (fd : ℤ) (event : EventMask) (ctl : Bool)

/-- A callback that was run. `live` says whether its registration, as copied by the loop, had then
not been deleted by a callback of the pass. -/
structure Ran (κ : Type) where
  fd : ℤ
  direction : Direction
  proc : κ
  live : Bool

/-- The state of a pass: the loop, and the callbacks run. `deleted` counts the deletions of a
registration that callbacks of the pass have made; `stamp` is what the count was when the
registration was made. -/
structure LoopPass (κ : Type) where
  loop : EventLoop κ
  ran : List (Ran κ)
  deleted : ℤ → Direction → ℕ
  stamp : ℤ → Direction → ℕ

namespace RegCall

variable {κ : Type}

/-- The call made. -/
def apply (l : EventLoop κ) : RegCall κ → EventLoop κ
  | .add fd event proc ctl => l.addIoEvent ctl fd event proc
  | .del fd ctl => l.delIoEvent ctl fd
  | .delMask fd event ctl => l.delIoEventMask ctl fd event

/-- The call deletes the registration of `fd` for `d`: all of the descriptor's, or the event. -/
def deletes (l : EventLoop κ) (fd : ℤ) (d : Direction) : RegCall κ → Bool
  | .add _ _ _ _ => false
  | .del fd' _ => decide (fd = fd') && (l.ioEvsMap fd).isSome
  | .delMask fd' event _ =>
    decide (fd = fd') &&
      (l.ioEvsMap fd).any fun ev =>
        decide (ev.event &&& ~~~event = 0#32) || (ev.event.has d.event && event.has d.event)

/-- The call makes a registration of `fd` for `d`. -/
def registers (fd : ℤ) (d : Direction) : RegCall κ → Bool
  | .add fd' event _ _ =>
    decide (fd = fd') &&
      match d with
      | .read => event.has epollIn
      | .write => !event.has epollIn && event.has epollOut
  | _ => false

end RegCall

namespace LoopPass

variable {κ : Type} (behave : List (Ran κ) → List (RegCall κ))

/-- A pass that starts. -/
def start (l : EventLoop κ) : LoopPass κ := ⟨l, [], fun _ _ => 0, fun _ _ => 0⟩

/-- A call made by a callback. -/
def call (s : LoopPass κ) (c : RegCall κ) : LoopPass κ :=
  { s with
    loop := c.apply s.loop
    deleted := fun fd d => if c.deletes s.loop fd d then s.deleted fd d + 1 else s.deleted fd d
    stamp := fun fd d => if c.registers fd d then s.deleted fd d else s.stamp fd d }

/-- A callback run, its registration having been copied when the stamps were `stamp`. -/
def runCallback (stamp : Direction → ℕ) (fd : ℤ) (d : Direction) (proc : κ) (s : LoopPass κ) :
    LoopPass κ :=
  let ran := s.ran ++ [⟨fd, d, proc, s.deleted fd d = stamp d⟩]
  (behave ran).foldl call { s with ran := ran }

/-- A ready event dealt with. -/
def dispatch (s : LoopPass κ) (r : Ready) : Except Halt (LoopPass κ) :=
  EventLoop.dispatch LoopPass.loop (fun s => { s with loop := s.loop.delIoEvent r.ctl r.fd })
    (fun d proc s' => .ok (runCallback behave (s.stamp r.fd) r.fd d proc s')) r s

/-- The pass as a machine that takes the ready events and shows the callbacks it runs. -/
def step (s : LoopPass κ) (r : Ready) : Except Halt (List (Ran κ) × LoopPass κ) := do
  let s' ← dispatch behave s r
  .ok (s'.ran.drop s.ran.length, s')

/-- What is asked of the callbacks run for a ready event. -/
def Respects (o : List (Ran κ)) : Prop :=
  (∀ d, (o.filter fun r => r.direction = d).length ≤ 1) ∧ ∀ r ∈ o, r.live = true

/-- No callback of the pass has deleted the registration whose callback is kept. -/
def Live (s : LoopPass κ) (fd : ℤ) (d : Direction) : Prop := s.deleted fd d = s.stamp fd d

/-- The callback `d` of the registration is due for the events. -/
def Due (ev : IoEvent κ) (events : EventMask) : Direction → Prop
  | .read => ev.readCallback.isSome ∧
    (events.has epollIn = true ∨ events.has (epollHup ||| epollErr) = true)
  | .write => ev.writeCallback.isSome ∧
    (events.has epollOut = true ∨ events.has (epollHup ||| epollErr) = true)

/-- The state after the read callback, if it is due. -/
def afterRead (s : LoopPass κ) (r : Ready) (ev : IoEvent κ) : LoopPass κ :=
  if r.events.has epollIn || r.events.has (epollHup ||| epollErr) then
    ev.readCallback.elim s fun proc => runCallback behave (s.stamp r.fd) r.fd .read proc s
  else s

/-- A ready event that the loop gets right: `EPOLLHUP` and `EPOLLERR` do not come together with an
event that has a callback, no callback due belongs to a registration deleted before, and the read
callback does not delete the registration of a write callback that is due. -/
def Meets (s : LoopPass κ) (r : Ready) : Prop :=
  s.loop.Apart r ∧ ∀ ev, s.loop.ioEvsMap r.fd = some ev →
    (Due ev r.events .read → s.Live r.fd .read) ∧
    (Due ev r.events .write →
      (afterRead behave s r ev).deleted r.fd .write = s.stamp r.fd .write)

variable {behave}

@[simp] theorem ran_foldl_call (cs : List (RegCall κ)) (s : LoopPass κ) :
    (cs.foldl call s).ran = s.ran := by
  induction cs generalizing s with
  | nil => rfl
  | cons c cs ih => exact ih (s.call c)

@[simp] theorem ran_runCallback (stamp : Direction → ℕ) (fd : ℤ) (d : Direction) (proc : κ)
    (s : LoopPass κ) :
    (runCallback behave stamp fd d proc s).ran =
      s.ran ++ [⟨fd, d, proc, s.deleted fd d = stamp d⟩] :=
  ran_foldl_call _ _

/-- **A ready event** never stops the pass, and is dealt with as it should be if and only if it
meets the condition. -/
theorem respects_iff (s : LoopPass κ) (r : Ready) :
    ∃ o s', step behave s r = .ok (o, s') ∧ (Respects o ↔ Meets behave s r) := by
  unfold step dispatch EventLoop.dispatch Meets EventLoop.Apart Due afterRead
  cases hev : s.loop.ioEvsMap r.fd with
  | none => simp [Respects]
  | some ev =>
    -- the three tests are made one after the other, on whatever callbacks the copy holds
    cases hin : r.events.has epollIn <;> cases hout : r.events.has epollOut <;>
      cases hhup : r.events.has (epollHup ||| epollErr) <;>
      cases hread : ev.readCallback <;> cases hwrite : ev.writeCallback <;>
      simp [Respects, Live, callIfSet, Direction.forall, hread, hwrite]

/-! ### Callbacks left behind -/

/-- The call deletes the registration of `fd` for `d` and leaves the callback: it is a
`del_io_event` for a part of the events. -/
def Strands (l : EventLoop κ) (fd : ℤ) (d : Direction) (c : RegCall κ) : Prop :=
  c.deletes l fd d = true ∧
    ∃ ev, (c.apply l).ioEvsMap fd = some ev ∧ (ev.callback d).isSome = true

/-- Every callback kept is live. -/
def Kept (s : LoopPass κ) (fd : ℤ) (d : Direction) : Prop :=
  ∀ ev, s.loop.ioEvsMap fd = some ev → (ev.callback d).isSome = true → s.Live fd d

/-- A call that does not register the callback keeps the one there has been. -/
theorem callback_apply {l : EventLoop κ} {fd : ℤ} {d : Direction} {c : RegCall κ}
    (hc : c.registers fd d = false) {ev : IoEvent κ} (hev : (c.apply l).ioEvsMap fd = some ev)
    (hset : (ev.callback d).isSome = true) :
    ∃ ev', l.ioEvsMap fd = some ev' ∧ (ev'.callback d).isSome = true := by
  cases c with
  | add fd' event proc ctl =>
    change (l.addIoEvent ctl fd' event proc).ioEvsMap fd = some ev at hev
    rw [EventLoop.addIoEvent_ioEvsMap] at hev
    by_cases hfd : fd = fd'
    · subst hfd
      rw [Function.update_self] at hev
      cases hev
      have hold : ((l.ioEvsMap fd).bind (IoEvent.callback · d)).isSome = true := by
        cases d with
        | read =>
          have hin : event.has epollIn = false := by simpa [RegCall.registers] using hc
          dsimp only [IoEvent.callback] at hset
          rwa [hin, if_neg Bool.false_ne_true] at hset
        | write =>
          have hout : (!event.has epollIn && event.has epollOut) = false := by
            simpa [RegCall.registers] using hc
          dsimp only [IoEvent.callback] at hset
          rwa [hout, if_neg Bool.false_ne_true] at hset
      obtain ⟨proc', hproc⟩ := Option.isSome_iff_exists.mp hold
      obtain ⟨ev', hev', hcallback⟩ := Option.bind_eq_some_iff.mp hproc
      exact ⟨ev', hev', Option.isSome_iff_exists.mpr ⟨proc', hcallback⟩⟩
    · rw [Function.update_of_ne hfd] at hev
      exact ⟨ev, hev, hset⟩
  | del fd' ctl =>
    change (l.delIoEvent ctl fd').ioEvsMap fd = some ev at hev
    rw [EventLoop.delIoEvent_ioEvsMap, Function.update_apply] at hev
    split_ifs at hev
    exact ⟨ev, hev, hset⟩
  | delMask fd' event ctl =>
    change (l.delIoEventMask ctl fd' event).ioEvsMap fd = some ev at hev
    rw [EventLoop.delIoEventMask_ioEvsMap, Function.update_apply] at hev
    split_ifs at hev with hfd
    · subst hfd
      obtain ⟨ev', hev', h⟩ := Option.bind_eq_some_iff.mp hev
      split_ifs at h
      cases h
      exact ⟨ev', hev', by cases d <;> exact hset⟩
    · exact ⟨ev, hev, hset⟩

/-- A call does not register what it deletes. -/
theorem registers_of_deletes {l : EventLoop κ} {fd : ℤ} {d : Direction} {c : RegCall κ}
    (h : c.deletes l fd d = true) : c.registers fd d = false := by
  cases c with
  | add => cases h
  | del => rfl
  | delMask => rfl

/-- **A call** leaves a callback behind that is not live if and only if it strands it. -/
theorem Kept.call_iff {s : LoopPass κ} {fd : ℤ} {d : Direction} (h : s.Kept fd d) (c : RegCall κ) :
    (s.call c).Kept fd d ↔ ¬ Strands s.loop fd d c := by
  constructor
  · rintro hkept ⟨hdel, ev, hev, hset⟩
    have hreg := registers_of_deletes hdel
    obtain ⟨ev', hev', hset'⟩ := callback_apply hreg hev hset
    have hlive : s.deleted fd d = s.stamp fd d := h ev' hev' hset'
    have hlive' : (s.call c).deleted fd d = (s.call c).stamp fd d := hkept ev hev hset
    simp only [call, hdel, hreg, if_true, Bool.false_eq_true, if_false] at hlive'
    omega
  · intro hnot ev hev hset
    have hdel : c.deletes s.loop fd d = false :=
      Bool.eq_false_iff.mpr fun hdel => hnot ⟨hdel, ev, hev, hset⟩
    rw [Live]
    simp only [call, hdel, Bool.false_eq_true, if_false]
    split_ifs with hreg
    · rfl
    · obtain ⟨ev', hev', hset'⟩ := callback_apply (Bool.eq_false_iff.mpr hreg) hev hset
      exact h ev' hev' hset'

/-- The loop goes through the ready events with calls that keep a property. -/
theorem dispatch_keeps {P : LoopPass κ → Prop}
    (hcallback : ∀ s ran, P s → P { s with ran := ran })
    (hdel : ∀ s fd ctl, P s → P { s with loop := s.loop.delIoEvent ctl fd })
    (hcall : ∀ s ran, ∀ c ∈ behave ran, P s → P (s.call c)) {s s' : LoopPass κ} {r : Ready}
    (hs : P s) (h : dispatch behave s r = .ok s') : P s' := by
  have hrun : ∀ stamp fd d proc s, P s → P (runCallback behave stamp fd d proc s) := by
    intro stamp fd d proc s hs
    exact List.foldlRecOn _ _ (hcallback s _ hs) fun s hs c hc => hcall s _ c hc hs
  have hset : ∀ stamp fd d proc (s s' : LoopPass κ), P s →
      (callIfSet (fun proc s => .ok (runCallback behave stamp fd d proc s)) proc s :
        Except Halt (LoopPass κ)) = .ok s' → P s' := by
    intro stamp fd d proc s s' hs h
    cases proc with
    | none => exact Except.ok.inj h ▸ hs
    | some proc => exact Except.ok.inj h ▸ hrun stamp fd d proc s hs
  unfold dispatch EventLoop.dispatch at h
  split at h
  · exact Except.ok.inj h ▸ hs
  · obtain ⟨s₁, h₁, h⟩ := bind_eq_ok.mp h
    obtain ⟨s₂, h₂, h⟩ := bind_eq_ok.mp h
    have hs₁ : P s₁ := by
      split_ifs at h₁
      · exact hset _ _ _ _ _ _ hs h₁
      · exact Except.ok.inj h₁ ▸ hs
    have hs₂ : P s₂ := by
      split_ifs at h₂
      · exact hset _ _ _ _ _ _ hs₁ h₂
      · exact Except.ok.inj h₂ ▸ hs₁
    split_ifs at h
    · obtain ⟨s₃, h₃, h⟩ := bind_eq_ok.mp h
      refine hset _ _ _ _ _ _ (hset _ _ _ _ _ _ ?_ h₃) h
      exact hdel _ _ _ hs₂
    · obtain ⟨s₃, h₃, h⟩ := bind_eq_ok.mp h
      exact hset _ _ _ _ _ _ (hset _ _ _ _ _ _ hs₂ h₃) h
    · exact Except.ok.inj h ▸ hs₂

/-- A callback that deletes whole registrations only strands none. -/
theorem not_strands {l : EventLoop κ} {fd : ℤ} {d : Direction} {c : RegCall κ}
    (hc : ∀ fd event ctl, c ≠ .delMask fd event ctl) : ¬ Strands l fd d c := by
  rintro ⟨hdel, ev, hev, -⟩
  cases c with
  | add => cases hdel
  | del fd' ctl =>
    obtain ⟨hfd, -⟩ : fd = fd' ∧ _ := by simpa [RegCall.deletes] using hdel
    subst hfd
    change (l.delIoEvent ctl fd).ioEvsMap fd = some ev at hev
    rw [EventLoop.delIoEvent_ioEvsMap, Function.update_self] at hev
    cases hev
  | delMask fd' event ctl => exact hc fd' event ctl rfl

/-- **Where callbacks delete whole registrations only**, every callback kept is live between the
events of a pass. -/
theorem kept_of_run (hwhole : ∀ ran fd event ctl, RegCall.delMask fd event ctl ∉ behave ran)
    {l : EventLoop κ} {batch : List Ready} {outs : List (List (Ran κ))} {s : LoopPass κ}
    (h : run (step behave) (start l) batch = .ok (outs, s)) (fd : ℤ) (d : Direction) :
    s.Kept fd d := by
  have hstart : (start l).Kept fd d := fun _ _ _ => rfl
  refine run_invariant (P := fun s : LoopPass κ => s.Kept fd d) (fun s r o s' hs hstep => ?_)
    hstart h
  obtain ⟨s₁, hdispatch, hstep⟩ := bind_eq_ok.mp hstep
  cases hstep
  refine dispatch_keeps (P := fun s => s.Kept fd d) (fun s ran hs => hs) ?_ ?_ hs hdispatch
  · -- the loop deletes registrations without callbacks, and whole ones
    intro s fd' ctl hs ev hev hset
    dsimp only at hev
    rw [EventLoop.delIoEvent_ioEvsMap, Function.update_apply] at hev
    split_ifs at hev
    exact hs ev hev hset
  · intro s ran c hc hs
    refine (hs.call_iff c).mpr (not_strands ?_)
    rintro fd' event ctl rfl
    exact hwhole ran fd' event ctl hc

/-- An event is then dealt with as it should be if and only if `EPOLLHUP` and `EPOLLERR` do not come
together with an event that has a callback, and the read callback does not delete the registration
of a write callback that is due. -/
theorem meets_iff_of_whole (hwhole : ∀ ran fd event ctl, RegCall.delMask fd event ctl ∉ behave ran)
    {l : EventLoop κ} {batch : List Ready} {outs : List (List (Ran κ))} {s : LoopPass κ}
    (h : run (step behave) (start l) batch = .ok (outs, s)) (r : Ready) :
    Meets behave s r ↔ s.loop.Apart r ∧ ∀ ev, s.loop.ioEvsMap r.fd = some ev →
      Due ev r.events .write →
        (afterRead behave s r ev).deleted r.fd .write = s.deleted r.fd .write := by
  refine and_congr_right fun _ => forall₂_congr fun ev hev => ?_
  have hkept := kept_of_run hwhole h r.fd
  constructor
  · rintro ⟨-, hwrite⟩ hdue
    exact (hwrite hdue).trans (hkept .write ev hev hdue.1).symm
  · intro hwrite
    exact ⟨fun hdue => hkept .read ev hev hdue.1,
      fun hdue => (hwrite hdue).trans (hkept .write ev hev hdue.1)⟩

end LoopPass

/-! ## When a client is read from -/

namespace TcpClient

/-- `handle_read` is registered for reading only, and only while the client is connected. -/
structure ReadsConnected (c : TcpClient) : Prop where
  fd_ne : c.fd ≠ -1
  read : c.own.connected = true ∨ ∀ ev, c.loop.ioEvsMap c.fd = some ev → ev.readCallback = none
  write : ∀ ev self, c.loop.ioEvsMap c.fd = some ev → ev.writeCallback ≠ some (.handleRead self)

theorem ReadsConnected.of_none {c : TcpClient} (hfd : c.fd ≠ -1)
    (h : c.loop.ioEvsMap c.fd = none) : ReadsConnected c :=
  ⟨hfd, Or.inr (by simp [h]), by simp [h]⟩

theorem ReadsConnected.input {c : TcpClient} (hc : ReadsConnected c) (ibuf : Option IoBuf)
    (pool : BufPool) : ReadsConnected { c with ibuf := ibuf, pool := pool } :=
  ⟨hc.fd_ne, hc.read, hc.write⟩

/-- Another write callback may be registered, but for `handle_read`. -/
theorem ReadsConnected.addOut {c : TcpClient} (hc : ReadsConnected c) (ctl : Bool)
    {proc : ClientCallback} (hproc : ∀ self, proc ≠ .handleRead self) :
    ReadsConnected { c with loop := c.loop.addIoEvent ctl c.fd epollOut proc } := by
  have hout : epollOut.has epollIn = false := by decide
  refine ⟨hc.fd_ne, hc.read.imp_right fun h ev hev => ?_, fun ev self hev => ?_⟩
  · rw [EventLoop.addIoEvent_ioEvsMap, Function.update_self] at hev
    cases hev
    simp only [hout, Bool.false_eq_true, if_false]
    exact Option.bind_eq_none_iff.mpr h
  · rw [EventLoop.addIoEvent_ioEvsMap, Function.update_self] at hev
    cases hev
    dsimp only
    rw [if_pos (by decide)]
    simpa using hproc self

/-- Giving up an event leaves the callbacks. -/
theorem ReadsConnected.delMask {c : TcpClient} (hc : ReadsConnected c) (ctl : Bool)
    (event : EventMask) :
    ReadsConnected { c with loop := c.loop.delIoEventMask ctl c.fd event } := by
  have hkept : ∀ ev, (c.loop.delIoEventMask ctl c.fd event).ioEvsMap c.fd = some ev →
      ∃ ev', c.loop.ioEvsMap c.fd = some ev' ∧ ev.readCallback = ev'.readCallback ∧
        ev.writeCallback = ev'.writeCallback := by
    intro ev hev
    rw [EventLoop.delIoEventMask_ioEvsMap, Function.update_self] at hev
    obtain ⟨ev', hev', h⟩ := Option.bind_eq_some_iff.mp hev
    split_ifs at h
    cases h
    exact ⟨ev', hev', rfl, rfl⟩
  refine ⟨hc.fd_ne, hc.read.imp_right fun h ev hev => ?_, fun ev self hev => ?_⟩
  · obtain ⟨ev', hev', hr, -⟩ := hkept ev hev
    exact hr.trans (h ev' hev')
  · obtain ⟨ev', hev', -, hw⟩ := hkept ev hev
    rw [hw]
    exact hc.write ev' self hev'

theorem ReadsConnected.send {c c' : TcpClient} (hc : ReadsConnected c) {id : Int32}
    {body : List UInt8} {ctl : Bool} {ret : ℤ}
    (h : Endpoint.send kind id body ctl c = .ok (ret, c')) : ReadsConnected c' := by
  cases Endpoint.sends h with
  | barred => exact hc
  | refused => exact ⟨hc.fd_ne, hc.read, hc.write⟩
  | first =>
    have hadd : ReadsConnected
        { c with loop := c.loop.addIoEvent ctl c.fd epollOut (kind.onWrite c.own) } :=
      hc.addOut ctl (by simp [kind])
    exact ⟨hadd.fd_ne, hadd.read, hadd.write⟩
  | behind => exact ⟨hc.fd_ne, hc.read, hc.write⟩

theorem ReadsConnected.runScript {c c' : TcpClient} (hc : ReadsConnected c) {acts : List UserAct}
    (h : Endpoint.runScript kind acts c = .ok c') : ReadsConnected c' :=
  Endpoint.runScript_keeps (C := fun _ => True) (fun _ _ _ hc => hc.input _ _)
    (fun _ _ _ _ _ _ _ hc hs => hc.send hs) (fun _ _ _ _ => trivial) hc h

theorem ReadsConnected.established {c c' : TcpClient} (hc : ReadsConnected c) {env : ClientEnv}
    (h : TcpClient.established env c = .ok c') : ReadsConnected c' := by
  refine ReadsConnected.runScript ?_ h
  refine ⟨hc.fd_ne, Or.inl rfl, fun ev self hev => ?_⟩
  have hin : (!epollIn.has epollIn && epollIn.has epollOut) = false := by decide
  rw [EventLoop.addIoEvent_ioEvsMap, Function.update_self] at hev
  cases hev
  simp only [hin, Bool.false_eq_true, if_false]
  intro hw
  obtain ⟨ev, hev, hw⟩ := Option.bind_eq_some_iff.mp hw
  exact hc.write ev self hev hw

theorem ReadsConnected.doConnect {c c' : TcpClient} (hc : ReadsConnected c) {env : ClientEnv}
    (h : TcpClient.doConnect env c = .ok c') : ReadsConnected c' := by
  unfold TcpClient.doConnect at h
  split_ifs at h
  · exact hc.established h
  · cases h
    exact hc.addOut env.ctl (by simp)
  · cases h
    exact hc

theorem ReadsConnected.cleanConn {c c' : TcpClient} (hc : ReadsConnected c) {env : ClientEnv}
    (h : TcpClient.cleanConn env c = .ok c') : ReadsConnected c' := by
  obtain ⟨c₁, hrun, h⟩ := bind_eq_ok.mp h
  rw [if_pos hc.fd_ne] at hrun
  refine ReadsConnected.doConnect (ReadsConnected.runScript ?_ hrun) h
  refine .of_none hc.fd_ne ?_
  simp only [EventLoop.delIoEvent_ioEvsMap, Function.update_self]

theorem keeps_readsConnected (env : ClientEnv) :
    Endpoint.Keeps kind (TcpClient.cleanConn env) (fun _ => True) ReadsConnected where
  input _ _ _ hc := hc.input _ _
  send _ _ _ _ _ _ _ hc h := hc.send h
  close _ _ hc h := hc.cleanConn h

/-- **Every call keeps `handle_read` from being registered while the client is not connected.** -/
theorem ReadsConnected.step {c c' : TcpClient} {ev : Event} {o : Shown} (hc : ReadsConnected c)
    (h : TcpClient.step c ev = .ok (o, c')) : ReadsConnected c' := by
  have hc₀ := hc.input c.ibuf ev.pool
  obtain ⟨soError, -, h⟩ | ⟨probe, k, hs, -, rfl | ⟨r, h⟩⟩ | ⟨answers, l, -, h⟩ |
    ⟨id, body, ret, -, h⟩ := step_cases h
  · refine ReadsConnected.established ?_ h
    refine .of_none hc.fd_ne ?_
    simp only [EventLoop.delIoEvent_ioEvsMap, Function.update_self]
  · exact hc₀
  · exact (keeps_readsConnected ev.env).handleRead (fun _ _ _ _ _ => trivial) hc₀ h
  · obtain ⟨failed, d, c₁, -, hclose, hlast⟩ := Endpoint.handleWrite_cases h
    have hd : ReadsConnected { c with obuf := d.buf, pool := ev.pool } :=
      ⟨hc.fd_ne, hc.read, hc.write⟩
    have hc₁ : ReadsConnected c₁ := by
      rcases hclose with ⟨-, hclose⟩ | ⟨-, rfl⟩
      · exact hd.cleanConn hclose
      · exact hd
    rcases hlast with rfl | rfl
    · exact hc₁.delMask ev.env.ctl epollOut
    · exact hc₁
  · exact hc₀.send h

/-! ## A pass over a client alone on its loop -/

/-- What a callback of a client finds when it is run. -/
structure CallbackEnv where
  pool : BufPool
  env : ClientEnv
  soError : ℤ
  probe : Bool
  kernel : KernelRead
  handlers : Handlers
  answers : List WriteAnswer

/-- The call a callback makes. -/
def CallbackEnv.event (f : CallbackEnv) : ClientCallback → Event
  | .handleConnect _ => ⟨.handleConnect f.soError, f.pool, f.env⟩
  | .handleRead _ => ⟨.handleRead f.probe f.kernel f.handlers, f.pool, f.env⟩
  | .handleWrite _ => ⟨.handleWrite f.answers, f.pool, f.env⟩

/-- What stops a pass: the `assert(m_connected)` of `handle_read`, or something else. -/
inductive Stop
  | notConnected
  | halted (t : Halt)
  deriving DecidableEq

/-- A pass over a client: the client, and how many callbacks have been run. -/
structure ClientPass where
  client : TcpClient
  count : ℕ

namespace ClientPass

variable (found : ℕ → CallbackEnv)

/-- A callback run. -/
def runCallback (proc : ClientCallback) (s : ClientPass) : Except Stop ClientPass :=
  match proc, s.client.own.connected with
  | .handleRead _, false => .error .notConnected
  | _, _ =>
    match TcpClient.step s.client ((found s.count).event proc) with
    | .error t => .error (.halted t)
    | .ok (_, c) => .ok ⟨c, s.count + 1⟩

/-- A ready event of the client's descriptor dealt with. -/
def dispatch (r : Ready) (s : ClientPass) : Except Stop ClientPass :=
  EventLoop.dispatch (fun s => s.client.loop)
    (fun s => { s with client := { s.client with loop := s.client.loop.delIoEvent r.ctl r.fd } })
    (fun _ => runCallback found) r s

/-- What `epoll_wait` returns for the client, and the answer of `epoll_ctl`. -/
def ready (s : ClientPass) (events : EventMask × Bool) : Ready :=
  ⟨s.client.fd, events.1, events.2⟩

/-- The pass as a machine that takes the events ready on the client's descriptor. -/
def step (s : ClientPass) (events : EventMask × Bool) : Except Stop (Unit × ClientPass) := do
  let s ← dispatch found (s.ready events) s
  .ok ((), s)

/-- The assertion does not stop the computation, which keeps the invariant. -/
def Safe (x : Except Stop ClientPass) : Prop :=
  x ≠ .error .notConnected ∧ ∀ s, x = .ok s → ReadsConnected s.client

theorem safe_ok {s : ClientPass} (hs : ReadsConnected s.client) : Safe (.ok s) :=
  ⟨by simp, fun s' h => by cases h; exact hs⟩

theorem Safe.bind {x : Except Stop ClientPass} {f : ClientPass → Except Stop ClientPass}
    (hx : Safe x) (hf : ∀ s, ReadsConnected s.client → Safe (f s)) : Safe (x >>= f) := by
  cases x with
  | error t => exact ⟨fun h => hx.1 (by rw [error_bind] at h; cases h; rfl), fun s h => by cases h⟩
  | ok s => exact hf s (hx.2 s rfl)

/-- A callback is safe if the client is connected when it reads. -/
theorem runCallback_safe {proc : ClientCallback} {s : ClientPass} (hs : ReadsConnected s.client)
    (hproc : s.client.own.connected = true ∨ ∀ self, proc ≠ .handleRead self) :
    Safe (runCallback found proc s) := by
  have hcall : Safe (match TcpClient.step s.client ((found s.count).event proc) with
      | .error t => .error (.halted t)
      | .ok (_, c) => .ok ⟨c, s.count + 1⟩) := by
    cases hstep : TcpClient.step s.client ((found s.count).event proc) with
    | error t => exact ⟨by simp, by simp⟩
    | ok r => exact safe_ok (hs.step hstep)
  unfold runCallback
  split
  · rename_i self hconn
    rcases hproc with h | h
    · rw [hconn] at h
      cases h
    · exact absurd rfl (h self)
  · exact hcall

theorem callRead_safe {s : ClientPass} {ev : IoEvent ClientCallback} (hs : ReadsConnected s.client)
    (hev : s.client.loop.ioEvsMap s.client.fd = some ev) :
    Safe (callIfSet (runCallback found) ev.readCallback s) := by
  cases hread : ev.readCallback with
  | none => exact safe_ok hs
  | some proc =>
    refine runCallback_safe found hs (Or.inl (hs.read.resolve_right fun h => ?_))
    rw [h ev hev] at hread
    cases hread

theorem callWrite_safe {s₀ s : ClientPass} {ev : IoEvent ClientCallback}
    (hs₀ : ReadsConnected s₀.client) (hev : s₀.client.loop.ioEvsMap s₀.client.fd = some ev)
    (hs : ReadsConnected s.client) : Safe (callIfSet (runCallback found) ev.writeCallback s) := by
  cases hwrite : ev.writeCallback with
  | none => exact safe_ok hs
  | some proc =>
    refine runCallback_safe found hs (Or.inr fun self h => hs₀.write ev self hev ?_)
    rw [hwrite, h]

/-- **The body of the loop** does not read from a client that is not connected, unless `EPOLLHUP` or
`EPOLLERR` comes together with an event that has a callback. -/
theorem dispatch_safe {s : ClientPass} {events : EventMask × Bool} (hs : ReadsConnected s.client)
    (hapart : s.client.loop.Apart (s.ready events)) : Safe (dispatch found (s.ready events) s) := by
  unfold dispatch EventLoop.dispatch
  cases hev : s.client.loop.ioEvsMap (s.ready events).fd with
  | none => exact safe_ok hs
  | some ev =>
    have hread := callRead_safe found hs hev
    have hwrite {s' : ClientPass} (hs' : ReadsConnected s'.client) :=
      callWrite_safe found hs hev hs'
    cases hhup : (s.ready events).events.has (epollHup ||| epollErr) with
    | false =>
      refine Safe.bind ?_ fun s₁ hs₁ => Safe.bind ?_ fun s₂ hs₂ => safe_ok hs₂
      · split
        · exact hread
        · exact safe_ok hs
      · split
        · exact hwrite hs₁
        · exact safe_ok hs₁
    | true =>
      obtain ⟨hin, hout⟩ := hapart ev hev hhup
      have h₁ : (if (s.ready events).events.has epollIn then
          callIfSet (runCallback found) ev.readCallback s else .ok s) = .ok s := by
        split
        · rename_i h
          rw [hin h]
          rfl
        · rfl
      have h₂ : (if (s.ready events).events.has epollOut then
          callIfSet (runCallback found) ev.writeCallback s else .ok s) = .ok s := by
        split
        · rename_i h
          rw [hout h]
          rfl
        · rfl
      dsimp only
      rw [h₁, ok_bind, h₂, ok_bind, if_pos rfl]
      by_cases hnone : (ev.readCallback.isNone && ev.writeCallback.isNone) = true
      · obtain ⟨hr, hw⟩ : ev.readCallback = none ∧ ev.writeCallback = none := by
          simpa using hnone
        rw [if_pos hnone, hr, hw]
        refine safe_ok (.of_none hs.fd_ne ?_)
        simp [ready]
      · rw [if_neg hnone]
        exact hread.bind fun s₁ hs₁ => hwrite hs₁

/-- A pass over a client does not read from it while it is not connected. -/
theorem run_ne_notConnected {batch : List (EventMask × Bool)} {s : ClientPass}
    (hs : ReadsConnected s.client)
    (hbatch : Along (step found) (fun s events => s.client.loop.Apart (s.ready events)) s batch) :
    run (step found) s batch ≠ .error .notConnected := by
  induction batch generalizing s with
  | nil => simp
  | cons events batch ih =>
    obtain ⟨hne, hkeep⟩ := dispatch_safe found hs hbatch.1
    cases hd : dispatch found (s.ready events) s with
    | error t =>
      have hstep : step found s events = .error t := by rw [step, hd, error_bind]
      rw [run_cons_error hstep]
      rintro ⟨⟩
      exact hne hd
    | ok s' =>
      have hstep : step found s events = .ok ((), s') := by rw [step, hd, ok_bind]
      rw [run_cons_ok hstep]
      have hrest := ih (hkeep s' hd) (hbatch.2 () s' hstep)
      cases hrun : run (step found) s' batch with
      | error t =>
        rw [hrun] at hrest
        simpa using hrest
      | ok r => simp

end ClientPass

end TcpClient

/-! ## Passes -/

section Passes

open LoopPass TcpClient

/-- **A pass of the event loop** runs what it should run if and only if every ready event meets the
condition. If `EPOLLHUP` and `EPOLLERR` never come together with an event that has a callback, the
assertion of `tcp_client::handle_read` does not fail in a pass, whatever has been done with the
client since `do_connect`. -/
theorem pass_respects_iff {κ : Type} (behave : List (Ran κ) → List (RegCall κ))
    (l : EventLoop κ) (batch : List Ready) :
    ((∃ outs s', run (LoopPass.step behave) (start l) batch = .ok (outs, s') ∧
        ∀ o ∈ outs, Respects o) ↔
      Along (LoopPass.step behave) (LoopPass.Meets behave) (start l) batch) ∧
    ∀ (self : ℕ) (fd : ℤ) (l₀ : EventLoop ClientCallback) (pool : BufPool) (env : ClientEnv)
      (c₀ c : TcpClient) (es : List Event) (outs : List Shown) (found : ℕ → CallbackEnv)
      (ready : List (EventMask × Bool)),
      fd ≠ -1 → l₀.ioEvsMap fd = none → doConnect env (new self fd l₀ pool) = .ok c₀ →
      run TcpClient.step c₀ es = .ok (outs, c) →
      Along (ClientPass.step found) (fun s events => s.client.loop.Apart (s.ready events)) ⟨c, 0⟩
        ready →
      run (ClientPass.step found) ⟨c, 0⟩ ready ≠ .error .notConnected := by
  refine ⟨run_forall_iff_along LoopPass.respects_iff _ _, ?_⟩
  intro self fd l₀ pool env c₀ c es outs found ready hfd hl h₀ hrun hready
  have hc₀ : ReadsConnected c₀ := (ReadsConnected.of_none hfd hl).doConnect h₀
  have hc : ReadsConnected c := run_invariant (fun _ _ _ _ hc h => hc.step h) hc₀ hrun
  exact ClientPass.run_ne_notConnected found hc hready

end Passes

section Example

open TcpClient

/-- What a callback finds when the peer has closed. -/
def peerClosed : CallbackEnv where
  pool := .ofCounts fun _ => 2
  env := ⟨true, .pending, [], []⟩
  soError := 0
  probe := true
  kernel := ⟨some 0, [.data []]⟩
  handlers := ⟨fun _ => true, fun _ => []⟩
  answers := []

/-- The client connects, and the peer closes. -/
theorem pass_respects_peer_close : ∃ c₀ outs c,
    doConnect peerClosed.env (new 1 5 {} peerClosed.pool) = .ok c₀ ∧
    run TcpClient.step c₀ [peerClosed.event (.handleConnect 1)] = .ok (outs, c) ∧
    run (ClientPass.step fun _ => peerClosed) ⟨c, 0⟩ [(epollIn, true)] ≠ .error .notConnected := by
  refine ⟨_, _, _, rfl, rfl, (pass_respects_iff (fun _ : List (Ran ClientCallback) => []) {}
    []).2 1 5 {} peerClosed.pool peerClosed.env _ _
    [peerClosed.event (.handleConnect 1)] _ _ _ (by decide) rfl rfl rfl ?_⟩
  refine along_cons ?_ (along_nil _ _)
  intro ev _ hhup
  exact absurd hhup (by decide)

/-- With `EPOLLHUP` besides `EPOLLIN` the read callback is run twice, the second time after what it
did the first time, to deregister and to register `handle_connect`; a client's `assert` then fails.
-/
theorem not_pass_respects :
    (¬ ∀ (behave : List (Ran ClientCallback) → List (RegCall ClientCallback))
      (l : EventLoop ClientCallback) (batch : List Ready),
      ∃ outs s', run (LoopPass.step behave) (.start l) batch = .ok (outs, s') ∧
        ∀ o ∈ outs, LoopPass.Respects o) ∧
    ∃ c₀ outs c, doConnect peerClosed.env (new 1 5 {} peerClosed.pool) = .ok c₀ ∧
      run TcpClient.step c₀ [peerClosed.event (.handleConnect 1)] = .ok (outs, c) ∧
      run (ClientPass.step fun _ => peerClosed) ⟨c, 0⟩ [(epollIn ||| epollHup, true)] =
        .error .notConnected := by
  refine ⟨fun hall => ?_, _, _, _, rfl, rfl, rfl⟩
  obtain ⟨outs, s', hrun, houts⟩ := hall
    (fun _ => [.del 5 true, .add 5 epollOut (.handleConnect 1) true])
    (EventLoop.addIoEvent {} true 5 epollIn (.handleRead 1)) [⟨5, epollIn ||| epollHup, true⟩]
  have hruns : outs = [[⟨5, .read, .handleRead 1, true⟩, ⟨5, .read, .handleRead 1, false⟩]] := by
    cases hrun
    rfl
  subst hruns
  simpa using (houts _ List.mem_cons_self).1 .read

end Example

end Lars.Reactor
