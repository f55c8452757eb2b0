import Mathlib.Data.Finset.Basic
import Mathlib.Data.Int.Notation

/-!
# The registry of an event loop

`event_loop` (`lars_reactor/src/event_loop.cc`) keeps the events registered for each descriptor with
their callbacks (`ioEvsMap`) and the descriptors it listens on (`listenFds`); the kernel keeps its
own interest set, changed by `epoll_ctl`. Callbacks are of any type.

`epoll_ctl` fails as the kernel makes it fail: adding a registered descriptor, changing or deleting
an unregistered one, and otherwise when the answer `ok` is `false`.

The lemmas say what each operation does to the registration of its descriptor, and that it leaves
those of others alone.
-/

namespace Lars.Reactor

/-- A set of epoll events. -/
abbrev EventMask := BitVec 32

/-- `EPOLLIN`. -/
def epollIn : EventMask := 0x001

/-- `EPOLLOUT`. -/
def epollOut : EventMask := 0x004

/-- `EPOLLERR`. -/
def epollErr : EventMask := 0x008

/-- `EPOLLHUP`. -/
def epollHup : EventMask := 0x010

/-- `events & bits`, as a condition. -/
def EventMask.has (events bits : EventMask) : Bool := events &&& bits != 0

theorem EventMask.has_or (a b bits : EventMask) :
    (a ||| b).has bits = (a.has bits || b.has bits) := by
  unfold EventMask.has
  have hor : a &&& bits ||| b &&& bits = 0 ↔ a &&& bits = 0 ∧ b &&& bits = 0 :=
    BitVec.or_eq_zero_iff
  rw [BitVec.and_or_distrib_right, Bool.eq_iff_iff, Bool.or_eq_true]
  simp only [bne_iff_ne, ne_eq]
  rw [hor, not_and_or]

/-- Taking `EPOLLOUT` away does not touch `EPOLLIN`. -/
theorem EventMask.has_in_sub_out (a : EventMask) :
    (a &&& ~~~epollOut).has epollIn = a.has epollIn := by
  have hin : ~~~epollOut &&& epollIn = epollIn := by decide
  unfold EventMask.has
  rw [BitVec.and_assoc, hin]

theorem EventMask.ne_zero_of_has {a bits : EventMask} (h : a.has bits = true) : a ≠ 0#32 := by
  rintro rfl
  simp [EventMask.has] at h

/-- `io_event`: the events of a descriptor and its callbacks. -/
structure IoEvent (κ : Type*) where
  event : EventMask := 0
  readCallback : Option κ := none
  writeCallback : Option κ := none

/-- `event_loop`: the registrations, and the kernel's interest set for the loop's `m_efd`. -/
structure EventLoop (κ : Type*) where
  ioEvsMap : ℤ → Option (IoEvent κ) := fun _ => none
  listenFds : Finset ℤ := ∅
  interest : ℤ → Option EventMask := fun _ => none

/-- The operations of `epoll_ctl`. -/
inductive CtlOp
  | add
  | mod
  | del
  deriving DecidableEq

/-- `epoll_ctl` on the kernel's interest set; `none` is `-1`. -/
def epollCtl (interest : ℤ → Option EventMask) (ok : Bool) (op : CtlOp) (fd : ℤ)
    (events : EventMask) : Option (ℤ → Option EventMask) :=
  match op, interest fd with
  | .add, none => if ok then some (Function.update interest fd (some events)) else none
  | .add, some _ => none
  | .mod, some _ => if ok then some (Function.update interest fd (some events)) else none
  | .mod, none => none
  | .del, some _ => if ok then some (Function.update interest fd none) else none
  | .del, none => none

namespace EventLoop

variable {κ : Type*}

/-- `event_loop::add_io_event`; `ok` is the answer of `epoll_ctl`. -/
def addIoEvent (l : EventLoop κ) (ok : Bool) (fd : ℤ) (event : EventMask) (proc : κ) :
    EventLoop κ :=
  let (finalEvent, op) : EventMask × CtlOp :=
    match l.ioEvsMap fd with
    | none => (event, .add)
    | some ev => (ev.event ||| event, .mod)
  let ev : IoEvent κ := (l.ioEvsMap fd).getD {}
  let ev : IoEvent κ :=
    if event.has epollIn then { ev with readCallback := some proc }
    else if event.has epollOut then { ev with writeCallback := some proc }
    else ev
  let ev := { ev with event := finalEvent }
  let l := { l with ioEvsMap := Function.update l.ioEvsMap fd (some ev) }
  match epollCtl l.interest ok op fd finalEvent with
  | none => l
  | some interest => { l with interest := interest, listenFds := insert fd l.listenFds }

/-- `event_loop::del_io_event(fd)`. The result of `epoll_ctl` is only printed. -/
def delIoEvent (l : EventLoop κ) (ok : Bool) (fd : ℤ) : EventLoop κ :=
  match l.ioEvsMap fd with
  | none => l
  | some _ =>
    { ioEvsMap := Function.update l.ioEvsMap fd none
      listenFds := l.listenFds.erase fd
      interest := (epollCtl l.interest ok .del fd 0).getD l.interest }

/-- `event_loop::del_io_event(fd, event)`. -/
def delIoEventMask (l : EventLoop κ) (ok : Bool) (fd : ℤ) (event : EventMask) : EventLoop κ :=
  match l.ioEvsMap fd with
  | none => l
  | some ev =>
    let ev := { ev with event := ev.event &&& ~~~event }
    let l := { l with ioEvsMap := Function.update l.ioEvsMap fd (some ev) }
    if ev.event = 0#32 then l.delIoEvent ok fd
    else { l with interest := (epollCtl l.interest ok .mod fd ev.event).getD l.interest }

/-- The kernel is asked for exactly what is registered. -/
def InSync (l : EventLoop κ) (fd : ℤ) : Prop :=
  l.interest fd = (l.ioEvsMap fd).map IoEvent.event ∧
    (fd ∈ l.listenFds ↔ (l.ioEvsMap fd).isSome)

/-! ## The effect on the descriptor itself -/

theorem addIoEvent_ioEvsMap (l : EventLoop κ) (ok : Bool) (fd : ℤ) (event : EventMask) (proc : κ) :
    (l.addIoEvent ok fd event proc).ioEvsMap = Function.update l.ioEvsMap fd (some
      { event := ((l.ioEvsMap fd).elim 0 IoEvent.event) ||| event
        readCallback :=
          if event.has epollIn then some proc else (l.ioEvsMap fd).bind IoEvent.readCallback
        writeCallback :=
          if !event.has epollIn && event.has epollOut then some proc
          else (l.ioEvsMap fd).bind IoEvent.writeCallback }) := by
  unfold addIoEvent
  cases l.ioEvsMap fd <;> dsimp only <;> split <;>
    cases event.has epollIn <;> cases event.has epollOut <;> simp

/-- The registration made on a descriptor that had none. -/
theorem addIoEvent_new {l : EventLoop κ} {fd : ℤ} (h : l.ioEvsMap fd = none) (ok : Bool)
    (event : EventMask) (proc : κ) :
    (l.addIoEvent ok fd event proc).ioEvsMap fd = some
      { event := event
        readCallback := if event.has epollIn then some proc else none
        writeCallback :=
          if !event.has epollIn && event.has epollOut then some proc else none } := by
  simp [addIoEvent_ioEvsMap, h]

@[simp] theorem delIoEvent_ioEvsMap (l : EventLoop κ) (ok : Bool) (fd : ℤ) :
    (l.delIoEvent ok fd).ioEvsMap = Function.update l.ioEvsMap fd none := by
  unfold delIoEvent
  split
  · rename_i h
    rw [Function.update_eq_self_iff.mpr h.symm]
  · rfl

theorem delIoEventMask_ioEvsMap (l : EventLoop κ) (ok : Bool) (fd : ℤ) (event : EventMask) :
    (l.delIoEventMask ok fd event).ioEvsMap = Function.update l.ioEvsMap fd
      ((l.ioEvsMap fd).bind fun ev =>
        if ev.event &&& ~~~event = 0#32 then none
        else some { ev with event := ev.event &&& ~~~event }) := by
  unfold delIoEventMask
  split
  · rename_i h
    rw [h, Option.bind_none, Function.update_eq_self_iff.mpr h.symm]
  · rename_i ev h
    dsimp only
    split_ifs with h₀ <;> simp [h, h₀]

/-! ## The kernel's side -/

/-- With `epoll_ctl` succeeding the kernel is kept asked for what is registered. -/
theorem addIoEvent_inSync {l : EventLoop κ} {fd : ℤ} (h : l.InSync fd) (event : EventMask)
    (proc : κ) : (l.addIoEvent true fd event proc).InSync fd := by
  obtain ⟨hint, hfds⟩ := h
  unfold addIoEvent InSync
  cases hev : l.ioEvsMap fd with
  | none =>
    rw [hev] at hint
    simp [epollCtl, hint]
  | some ev =>
    rw [hev] at hint
    simp [epollCtl, hint]

theorem delIoEvent_inSync {l : EventLoop κ} {fd : ℤ} (h : l.InSync fd) :
    (l.delIoEvent true fd).InSync fd := by
  obtain ⟨hint, hfds⟩ := h
  unfold delIoEvent InSync
  cases hev : l.ioEvsMap fd with
  | none => simpa [hev] using ⟨hint.trans (by rw [hev]; rfl), by simpa [hev] using hfds⟩
  | some ev =>
    rw [hev] at hint
    simp [epollCtl, hint]

theorem delIoEventMask_inSync {l : EventLoop κ} {fd : ℤ} (h : l.InSync fd) (event : EventMask) :
    (l.delIoEventMask true fd event).InSync fd := by
  obtain ⟨hint, hfds⟩ := h
  unfold delIoEventMask InSync
  cases hev : l.ioEvsMap fd with
  | none => simpa [hev] using ⟨hint.trans (by rw [hev]; rfl), by simpa [hev] using hfds⟩
  | some ev =>
    rw [hev] at hint hfds
    dsimp only
    split_ifs with h₀
    · simp [delIoEvent, epollCtl, hint]
    · simp [epollCtl, hint]
      simpa using hfds

/-! ## The effect on other descriptors, and what is listened on -/

/-- What is listened on is registered. -/
def Listed (l : EventLoop κ) (fd : ℤ) : Prop := fd ∈ l.listenFds → l.ioEvsMap fd ≠ none

/-- The registries agree on all descriptors but `fd`. -/
def SameOff (fd : ℤ) (l l' : EventLoop κ) : Prop :=
  ∀ fd', fd' ≠ fd → (fd' ∈ l'.listenFds ↔ fd' ∈ l.listenFds) ∧ l'.ioEvsMap fd' = l.ioEvsMap fd'

theorem SameOff.refl (fd : ℤ) (l : EventLoop κ) : SameOff fd l l := fun _ _ => ⟨Iff.rfl, rfl⟩

theorem SameOff.trans {fd : ℤ} {l₁ l₂ l₃ : EventLoop κ} (h : SameOff fd l₁ l₂)
    (h' : SameOff fd l₂ l₃) : SameOff fd l₁ l₃ := by
  intro fd' hfd
  obtain ⟨hlisten, hmap⟩ := h fd' hfd
  obtain ⟨hlisten', hmap'⟩ := h' fd' hfd
  exact ⟨hlisten'.trans hlisten, hmap'.trans hmap⟩

theorem SameOff.listed {fd fd' : ℤ} {l l' : EventLoop κ} (h : SameOff fd l l') (hfd : fd' ≠ fd)
    (hl : l.Listed fd') : l'.Listed fd' := by
  obtain ⟨hlisten, hmap⟩ := h fd' hfd
  intro hmem
  rw [hmap]
  exact hl (hlisten.mp hmem)

/-- A registration makes no other descriptor one that is listened on. -/
theorem mem_listenFds_addIoEvent {l : EventLoop κ} {ok : Bool} {fd fd' : ℤ} {event : EventMask}
    {proc : κ} (h : fd' ∈ (l.addIoEvent ok fd event proc).listenFds) :
    fd' = fd ∨ fd' ∈ l.listenFds := by
  unfold addIoEvent at h
  dsimp only at h
  split at h
  · exact Or.inr h
  · exact Finset.mem_insert.mp h

theorem listenFds_delIoEvent_subset (l : EventLoop κ) (ok : Bool) (fd : ℤ) :
    (l.delIoEvent ok fd).listenFds ⊆ l.listenFds := by
  unfold delIoEvent
  split
  · exact Finset.Subset.refl _
  · exact Finset.erase_subset _ _

theorem listenFds_delIoEventMask_subset (l : EventLoop κ) (ok : Bool) (fd : ℤ) (event : EventMask) :
    (l.delIoEventMask ok fd event).listenFds ⊆ l.listenFds := by
  unfold delIoEventMask
  split
  · exact Finset.Subset.refl _
  · dsimp only
    split_ifs
    · exact listenFds_delIoEvent_subset _ ok fd
    · exact Finset.Subset.refl _

theorem addIoEvent_sameOff (l : EventLoop κ) (ok : Bool) (fd : ℤ) (event : EventMask) (proc : κ) :
    SameOff fd l (l.addIoEvent ok fd event proc) := by
  intro fd' hfd
  refine ⟨?_, by rw [addIoEvent_ioEvsMap, Function.update_of_ne hfd]⟩
  unfold addIoEvent
  dsimp only
  split
  · rfl
  · exact ⟨fun h => (Finset.mem_insert.mp h).resolve_left hfd, Finset.mem_insert_of_mem⟩

theorem addIoEvent_listed (l : EventLoop κ) (ok : Bool) (fd : ℤ) (event : EventMask) (proc : κ) :
    (l.addIoEvent ok fd event proc).Listed fd := by
  intro _
  rw [addIoEvent_ioEvsMap, Function.update_self]
  exact Option.some_ne_none _

theorem delIoEvent_sameOff (l : EventLoop κ) (ok : Bool) (fd : ℤ) :
    SameOff fd l (l.delIoEvent ok fd) := by
  intro fd' hfd
  refine ⟨?_, by rw [delIoEvent_ioEvsMap, Function.update_of_ne hfd]⟩
  unfold delIoEvent
  split
  · rfl
  · exact Finset.mem_erase.trans (and_iff_right hfd)

/-- `del_io_event` finds what it has to take out if what is listened on is registered. -/
theorem notMem_listenFds_delIoEvent {l : EventLoop κ} {fd : ℤ} (h : l.Listed fd) (ok : Bool) :
    fd ∉ (l.delIoEvent ok fd).listenFds := by
  unfold delIoEvent
  split
  · rename_i hnone
    exact fun hmem => h hmem hnone
  · exact Finset.notMem_erase _ _

theorem delIoEventMask_sameOff (l : EventLoop κ) (ok : Bool) (fd : ℤ) (event : EventMask) :
    SameOff fd l (l.delIoEventMask ok fd event) := by
  intro fd' hfd
  refine ⟨?_, by rw [delIoEventMask_ioEvsMap, Function.update_of_ne hfd]⟩
  unfold delIoEventMask
  split
  · rfl
  · dsimp only
    split_ifs
    · exact (delIoEvent_sameOff _ ok fd fd' hfd).1
    · rfl

theorem delIoEventMask_listed {l : EventLoop κ} {fd : ℤ} (h : l.Listed fd) (ok : Bool)
    (event : EventMask) : (l.delIoEventMask ok fd event).Listed fd := by
  unfold delIoEventMask
  split
  · exact h
  · have hsome : ∀ ev : IoEvent κ, Function.update l.ioEvsMap fd (some ev) fd ≠ none := by
      intro ev
      rw [Function.update_self]
      exact Option.some_ne_none ev
    dsimp only
    split_ifs
    · exact fun hmem => absurd hmem (notMem_listenFds_delIoEvent (fun _ => hsome _) ok)
    · exact fun _ => hsome _

end EventLoop

end Lars.Reactor
