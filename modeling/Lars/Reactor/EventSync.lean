import Lars.Foundations.Run
import Lars.Reactor.EventLoop

/-!
# The registry and the kernel

`add_io_event` changes `m_io_evs_map` before it calls `epoll_ctl`, and when the call fails it
returns without taking the change back. A new descriptor then is in the map and not in the kernel's
interest set, and every later `add_io_event` on it asks the kernel to change what it does not have.

The registry, the descriptors listened on and the interest set agree after every operation of a run,
and a registration that the kernel refuses has changed nothing, if and only if each refused one
repeats what is registered (`mirrored_iff`).
-/

namespace Lars.Reactor

open Machine

/-- A call of `add_io_event` or `del_io_event`; `ok` is the answer of `epoll_ctl`, which succeeds in
`del_io_event` on a registered descriptor. -/
inductive IoCall (κ : Type*)
  | add (ok : Bool) (fd : ℤ) (event : EventMask) (proc : κ)
  | del (fd : ℤ)
  | delMask (fd : ℤ) (event : EventMask)

/-- The kernel refuses the registration. -/
def IoCall.refused {κ : Type*} : IoCall κ → Bool
  | .add ok _ _ _ => !ok
  | .del _ | .delMask _ _ => false

namespace EventLoop

variable {κ : Type*}

/-- A call. -/
def apply (l : EventLoop κ) : IoCall κ → EventLoop κ
  | .add ok fd event proc => l.addIoEvent ok fd event proc
  | .del fd => l.delIoEvent true fd
  | .delMask fd event => l.delIoEventMask true fd event

/-- The machine of the calls, none of which stops. -/
def ioStep (l : EventLoop κ) (c : IoCall κ) : Except Disabled (Unit × EventLoop κ) :=
  .ok ((), l.apply c)

/-- The three views of the registrations agree. -/
def AllInSync (l : EventLoop κ) : Prop := ∀ fd, l.InSync fd

/-- After every operation the three views agree, and a registration that is refused has changed
none. -/
def Mirrored (l : EventLoop κ) (calls : List (IoCall κ)) : Prop :=
  Along ioStep (fun l c => (l.apply c).AllInSync ∧ (c.refused = true → l.apply c = l)) l calls

/-- The descriptor is registered with these events, and this callback. -/
structure Repeats (l : EventLoop κ) (fd : ℤ) (event : EventMask) (proc : κ) (ev : IoEvent κ) :
    Prop where
  registered : l.ioEvsMap fd = some ev
  events : ev.event ||| event = ev.event
  read : event.has epollIn = true → ev.readCallback = some proc
  write : event.has epollIn = false → event.has epollOut = true → ev.writeCallback = some proc

/-- A registration succeeds, or repeats what is registered. -/
def SucceedsOrRepeats (l : EventLoop κ) : IoCall κ → Prop
  | .add ok fd event proc => ok = true ∨ ∃ ev, l.Repeats fd event proc ev
  | .del _ | .delMask _ _ => True

/-! ## The operations -/

theorem epollCtl_of_ne {interest interest' : ℤ → Option EventMask} {ok : Bool} {op : CtlOp}
    {fd fd' : ℤ} {events : EventMask} (h : epollCtl interest ok op fd events = some interest')
    (hfd : fd' ≠ fd) : interest' fd' = interest fd' := by
  have hupdate : ∀ x, Function.update interest fd x fd' = interest fd' := fun x =>
    Function.update_of_ne hfd ..
  unfold epollCtl at h
  split at h
  all_goals first
    | cases h
    | split_ifs at h
      cases h
      exact hupdate _

theorem epollCtl_getD_of_ne (interest : ℤ → Option EventMask) (ok : Bool) (op : CtlOp)
    {fd fd' : ℤ} (events : EventMask) (hfd : fd' ≠ fd) :
    ((epollCtl interest ok op fd events).getD interest) fd' = interest fd' := by
  cases h : epollCtl interest ok op fd events with
  | none => rfl
  | some interest' => exact epollCtl_of_ne h hfd

theorem interest_addIoEvent_of_ne {fd fd' : ℤ} (hfd : fd' ≠ fd) (l : EventLoop κ) (ok : Bool)
    (event : EventMask) (proc : κ) :
    (l.addIoEvent ok fd event proc).interest fd' = l.interest fd' := by
  unfold addIoEvent
  dsimp only
  split
  · rfl
  · exact epollCtl_of_ne ‹_› hfd

theorem interest_delIoEvent_of_ne {fd fd' : ℤ} (hfd : fd' ≠ fd) (l : EventLoop κ) (ok : Bool) :
    (l.delIoEvent ok fd).interest fd' = l.interest fd' := by
  unfold delIoEvent
  split
  · rfl
  · exact epollCtl_getD_of_ne _ ok .del 0 hfd

theorem interest_delIoEventMask_of_ne {fd fd' : ℤ} (hfd : fd' ≠ fd) (l : EventLoop κ) (ok : Bool)
    (event : EventMask) : (l.delIoEventMask ok fd event).interest fd' = l.interest fd' := by
  unfold delIoEventMask
  split
  · rfl
  · dsimp only
    split_ifs
    · exact interest_delIoEvent_of_ne hfd _ ok
    · exact epollCtl_getD_of_ne _ ok .mod _ hfd

theorem SameOff.inSync {fd fd' : ℤ} {l l' : EventLoop κ} (h : SameOff fd l l') (hfd : fd' ≠ fd)
    (hint : l'.interest fd' = l.interest fd') (hl : l.InSync fd') : l'.InSync fd' := by
  obtain ⟨hlisten, hmap⟩ := h fd' hfd
  obtain ⟨hsync, hfds⟩ := hl
  refine ⟨?_, ?_⟩
  · rw [hint, hmap, hsync]
  · rw [hlisten, hmap, hfds]

/-! ## Refused registrations -/

theorem epollCtl_false (interest : ℤ → Option EventMask) (op : CtlOp) (fd : ℤ)
    (events : EventMask) : epollCtl interest false op fd events = none := by
  unfold epollCtl
  split <;> rfl

/-- A registration that the kernel refuses is made in the map all the same. -/
theorem addIoEvent_false (l : EventLoop κ) (fd : ℤ) (event : EventMask) (proc : κ) :
    l.addIoEvent false fd event proc =
      { l with ioEvsMap := (l.addIoEvent false fd event proc).ioEvsMap } := by
  unfold addIoEvent
  simp only [epollCtl_false]

/-- A refused registration changes nothing if and only if it repeats what is registered. -/
theorem addIoEvent_false_eq_self_iff {l : EventLoop κ} {fd : ℤ} {event : EventMask} {proc : κ} :
    l.addIoEvent false fd event proc = l ↔ ∃ ev, l.Repeats fd event proc ev := by
  have hmap : l.addIoEvent false fd event proc = l ↔
      (l.addIoEvent false fd event proc).ioEvsMap = l.ioEvsMap := by
    refine ⟨congrArg ioEvsMap, fun h => ?_⟩
    rw [addIoEvent_false, h]
  rw [hmap, addIoEvent_ioEvsMap, Function.update_eq_self_iff]
  cases hev : l.ioEvsMap fd with
  | none =>
    refine iff_of_false (fun h => nomatch h) ?_
    rintro ⟨ev, h⟩
    cases hev.symm.trans h.registered
  | some ev =>
    obtain ⟨events, readCallback, writeCallback⟩ := ev
    rw [Option.some.injEq, IoEvent.mk.injEq]
    constructor
    · rintro ⟨hevents, hread, hwrite⟩
      refine ⟨_, hev, hevents, fun hin => ?_, fun hin hout => ?_⟩
      · rw [if_pos hin] at hread
        exact hread.symm
      · rw [hin, hout] at hwrite
        exact hwrite.symm
    · rintro ⟨ev, hreg, hevents, hread, hwrite⟩
      obtain rfl := Option.some.inj (hev.symm.trans hreg)
      refine ⟨hevents, ?_, ?_⟩
      · split_ifs with hin
        · exact (hread hin).symm
        · rfl
      · split_ifs with hout
        · rw [Bool.and_eq_true, Bool.not_eq_true'] at hout
          exact (hwrite hout.1 hout.2).symm
        · rfl

/-! ## Runs -/

/-- From a registry in sync, a call keeps it so and is not refused with a change, if and only if it
succeeds or repeats what is registered. -/
theorem apply_inSync_iff {l : EventLoop κ} (hl : l.AllInSync) (c : IoCall κ) :
    (l.apply c).AllInSync ∧ (c.refused = true → l.apply c = l) ↔ l.SucceedsOrRepeats c := by
  cases c with
  | add ok fd event proc =>
    cases ok with
    | true =>
      refine iff_of_true ⟨fun fd' => ?_, fun h => (nomatch h)⟩ (Or.inl rfl)
      by_cases hfd : fd' = fd
      · subst hfd
        exact addIoEvent_inSync (hl fd') event proc
      · exact (addIoEvent_sameOff l true fd event proc).inSync hfd
          (interest_addIoEvent_of_ne hfd ..) (hl fd')
    | false =>
      have hrefused : (IoCall.add false fd event proc).refused = true := rfl
      have hrepeats : l.SucceedsOrRepeats (.add false fd event proc) ↔
          ∃ ev, l.Repeats fd event proc ev := or_iff_right Bool.false_ne_true
      rw [hrepeats, ← addIoEvent_false_eq_self_iff]
      refine ⟨fun h => h.2 hrefused, fun h => ⟨?_, fun _ => h⟩⟩
      rw [apply, h]
      exact hl
  | del fd =>
    refine iff_of_true ⟨fun fd' => ?_, fun h => (nomatch h)⟩ trivial
    by_cases hfd : fd' = fd
    · subst hfd
      exact delIoEvent_inSync (hl fd')
    · exact (delIoEvent_sameOff l true fd).inSync hfd (interest_delIoEvent_of_ne hfd ..) (hl fd')
  | delMask fd event =>
    refine iff_of_true ⟨fun fd' => ?_, fun h => (nomatch h)⟩ trivial
    by_cases hfd : fd' = fd
    · subst hfd
      exact delIoEventMask_inSync (hl fd') event
    · exact (delIoEventMask_sameOff l true fd event).inSync hfd
        (interest_delIoEventMask_of_ne hfd ..) (hl fd')

theorem allInSync_new : ({} : EventLoop κ).AllInSync := by
  intro fd
  exact ⟨rfl, by simp⟩

/-- **The registry mirrors the kernel** throughout a run if and only if each registration succeeds
or repeats what is registered. -/
theorem mirrored_iff (calls : List (IoCall κ)) :
    Mirrored {} calls ↔ Along ioStep SucceedsOrRepeats ({} : EventLoop κ) calls := by
  constructor
  · intro h
    refine Along.imp (P := AllInSync) h (fun l c hl hgood => ?_) allInSync_new
    exact ⟨(apply_inSync_iff hl c).mp hgood, fun _ l' hstep => by cases hstep; exact hgood.1⟩
  · intro h
    refine Along.imp (P := AllInSync) h (fun l c hl hc => ?_) allInSync_new
    have hgood := (apply_inSync_iff hl c).mpr hc
    exact ⟨hgood, fun _ l' hstep => by cases hstep; exact hgood.1⟩

/-- The descriptor is registered, and unknown to the kernel. -/
def Stuck (l : EventLoop κ) (fd : ℤ) : Prop := l.ioEvsMap fd ≠ none ∧ l.interest fd = none

/-- A registration does not make a descriptor known that is stuck. -/
theorem Stuck.addIoEvent {l : EventLoop κ} {fd : ℤ} (h : l.Stuck fd) (ok : Bool)
    (event : EventMask) (proc : κ) : (l.addIoEvent ok fd event proc).Stuck fd := by
  obtain ⟨hreg, hint⟩ := h
  refine ⟨?_, ?_⟩
  · rw [addIoEvent_ioEvsMap, Function.update_self]
    exact Option.some_ne_none _
  · obtain ⟨ev, hev⟩ := Option.ne_none_iff_exists'.mp hreg
    unfold EventLoop.addIoEvent
    simp [hev, epollCtl, hint]

theorem Stuck.foldl_addIoEvent {fd : ℤ} (adds : List (Bool × EventMask × κ)) {l : EventLoop κ}
    (h : l.Stuck fd) :
    (adds.foldl (fun l add => l.addIoEvent add.1 fd add.2.1 add.2.2) l).Stuck fd := by
  induction adds generalizing l with
  | nil => exact h
  | cons add adds ih => exact ih (h.addIoEvent add.1 add.2.1 add.2.2)

/-- The first registration of descriptor 5 is refused. It is in the map, and not in the kernel's
interest set, and no later registration of it succeeds, whatever the kernel answers. -/
theorem not_mirrored :
    (¬ ∀ calls : List (IoCall Unit), Mirrored {} calls) ∧
    ∀ adds : List (Bool × EventMask × Unit),
      (adds.foldl (fun l add => l.addIoEvent add.1 5 add.2.1 add.2.2)
        (({} : EventLoop Unit).addIoEvent false 5 epollIn ())).interest 5 = none := by
  have hstuck : (({} : EventLoop Unit).addIoEvent false 5 epollIn ()).Stuck 5 := by
    refine ⟨?_, by rw [addIoEvent_false]⟩
    rw [addIoEvent_ioEvsMap, Function.update_self]
    exact Option.some_ne_none _
  constructor
  · intro hall
    have hsync := ((hall [.add false 5 epollIn ()]).1.1 5).1
    obtain ⟨ev, hev⟩ := Option.ne_none_iff_exists'.mp hstuck.1
    rw [apply, hstuck.2, hev] at hsync
    cases hsync
  · exact fun adds => (hstuck.foldl_addIoEvent adds).2

end EventLoop

end Lars.Reactor
