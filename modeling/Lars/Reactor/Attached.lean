import Lars.Reactor.Bookkeeping

/-!
# The pointers to connections

Callbacks, tables, queued tasks and copies point to connections, and a connection is destroyed when
no pointer to it is left. No pointer dangles (`attached_of_run`): each is to an object that is
there, of the descriptor and the loop under which the pointer is kept. This is why it is enough to
look for the pointers to an object where `Referenced` does.
-/

namespace Lars.Reactor

open Machine

namespace TcpServer

variable {ℓ : Type} {s s' : TcpServer ℓ}

/-- The object is there, with its descriptor and its loop. -/
def At (s : TcpServer ℓ) (conn : ℕ) (fd : ℤ) (loop : ℓ) : Prop :=
  ∃ o, s.objects conn = some o ∧ o.fd = fd ∧ o.loop = loop

/-- Every pointer is to an object that is there, and is kept where `Referenced` looks for it. -/
structure Attached (s : TcpServer ℓ) : Prop where
  callback : ∀ loop fd ev conn, (s.loops loop).ioEvsMap fd = some ev → ev.calls conn = true →
    s.At conn fd loop
  table : ∀ loop fd conn, s.tables loop fd = some conn → s.At conn fd loop
  listenTask : ∀ loop, ∀ conn ∈ s.listenTasks loop, ∃ fd, s.At conn fd loop
  held : ∀ conn ∈ s.held, ∃ fd loop, s.At conn fd loop

/-- The callbacks after a registration are the new one and old ones. -/
theorem calls_addIoEvent {l : EventLoop ConnCallback} {ctl : Bool} {fd fd' : ℤ} {event : EventMask}
    {proc : ConnCallback} {ev : IoEvent ConnCallback} {conn : ℕ}
    (h : (l.addIoEvent ctl fd event proc).ioEvsMap fd' = some ev) (hcalls : ev.calls conn = true) :
    fd' = fd ∧ proc.self = conn ∨ ∃ ev₀, l.ioEvsMap fd' = some ev₀ ∧ ev₀.calls conn = true := by
  rw [EventLoop.addIoEvent_ioEvsMap] at h
  rcases update_eq_some.mp h with ⟨rfl, ⟨⟩⟩ | ⟨-, h⟩
  · cases hold : l.ioEvsMap fd' with
    | none =>
      refine Or.inl ⟨rfl, ?_⟩
      simp only [IoEvent.calls, hold, Option.bind_none] at hcalls
      split_ifs at hcalls <;> simp at hcalls <;> exact hcalls
    | some ev₀ =>
      simp only [IoEvent.calls, hold, Option.bind_some, Bool.or_eq_true] at hcalls
      rcases hcalls with hcalls | hcalls
      · split_ifs at hcalls
        · exact Or.inl ⟨rfl, by simpa using hcalls⟩
        · exact Or.inr ⟨ev₀, rfl, by simp [IoEvent.calls, hcalls]⟩
      · split_ifs at hcalls
        · exact Or.inl ⟨rfl, by simpa using hcalls⟩
        · exact Or.inr ⟨ev₀, rfl, by simp [IoEvent.calls, hcalls]⟩
  · exact Or.inr ⟨ev, h, hcalls⟩

theorem calls_delIoEvent {l : EventLoop ConnCallback} {ctl : Bool} {fd fd' : ℤ}
    {ev : IoEvent ConnCallback} (h : (l.delIoEvent ctl fd).ioEvsMap fd' = some ev) :
    l.ioEvsMap fd' = some ev := by
  rw [EventLoop.delIoEvent_ioEvsMap] at h
  exact (update_none_eq_some.mp h).2

theorem calls_delIoEventMask {l : EventLoop ConnCallback} {ctl : Bool} {fd fd' : ℤ}
    {event : EventMask} {ev : IoEvent ConnCallback} {conn : ℕ}
    (h : (l.delIoEventMask ctl fd event).ioEvsMap fd' = some ev) (hcalls : ev.calls conn = true) :
    ∃ ev₀, l.ioEvsMap fd' = some ev₀ ∧ ev₀.calls conn = true := by
  rw [EventLoop.delIoEventMask_ioEvsMap] at h
  rcases update_eq_some.mp h with ⟨rfl, h⟩ | ⟨-, h⟩
  · obtain ⟨ev₀, hold, h⟩ := Option.bind_eq_some_iff.mp h
    split_ifs at h
    cases h
    exact ⟨ev₀, hold, hcalls⟩
  · exact ⟨ev, h, hcalls⟩

section Pointers

variable [DecidableEq ℓ] {e : ServerEvent ℓ} {conn : ℕ} {fd : ℤ} {loop : ℓ}

/-- An object stays until it is destroyed. -/
theorem Made.at (h : Made s e s') (hs : s.Booked) (hat : s.At conn fd loop)
    (hne : ∀ ctl, e ≠ .destroy conn ctl) : s'.At conn fd loop := by
  obtain ⟨o, ho, rfl, rfl⟩ := hat
  cases h with
  | accept => exact ⟨o, hs.objects_newConn_old ho, rfl, rfl⟩
  | @close conn' ctl o' ho' =>
    unfold TcpServer.close
    split_ifs
    · exact ⟨o, ho, rfl, rfl⟩
    · by_cases hconn : conn = conn'
      · rw [hconn, ho'] at ho
        cases ho
        refine ⟨{ o with state := .disconnected }, ?_, rfl, rfl⟩
        rw [hconn]
        exact Function.update_self _ _ _
      · exact ⟨o, (Function.update_of_ne hconn _ _).trans ho, rfl, rfl⟩
  | @destroy conn' ctl o' ho' href =>
    have hconn : conn ≠ conn' := by
      rintro rfl
      exact hne ctl rfl
    refine ⟨o, (Function.update_of_ne hconn _ _).trans ?_, rfl, rfl⟩
    unfold TcpServer.close
    split_ifs
    · exact ho
    · exact (Function.update_of_ne hconn _ _).trans ho
  | refuse => exact ⟨o, ho, rfl, rfl⟩
  | store => exact ⟨o, ho, rfl, rfl⟩
  | listenRead => exact ⟨o, ho, rfl, rfl⟩
  | send => exact ⟨o, ho, rfl, rfl⟩
  | drained => exact ⟨o, ho, rfl, rfl⟩
  | deleteConnInloop => exact ⟨o, ho, rfl, rfl⟩
  | hold => exact ⟨o, ho, rfl, rfl⟩
  | release => exact ⟨o, ho, rfl, rfl⟩

/-- A callback registered is bound to an object of the descriptor and the loop, or was before. -/
theorem Made.callback_of (h : Made s e s') {ev : IoEvent ConnCallback}
    (hev : (s'.loops loop).ioEvsMap fd = some ev) (hcalls : ev.calls conn = true) :
    s'.At conn fd loop ∨ ∃ ev₀, (s.loops loop).ioEvsMap fd = some ev₀ ∧ ev₀.calls conn = true := by
  -- one loop's registry is changed, and that at the descriptor of one of its objects
  have hupdate : ∀ {o : ConnObject ℓ} {l : EventLoop ConnCallback},
      (Function.update s.loops o.loop l loop).ioEvsMap fd = some ev →
      (loop = o.loop → l.ioEvsMap fd = some ev → s'.At conn fd loop ∨
        ∃ ev₀, (s.loops loop).ioEvsMap fd = some ev₀ ∧ ev₀.calls conn = true) →
      s'.At conn fd loop ∨
        ∃ ev₀, (s.loops loop).ioEvsMap fd = some ev₀ ∧ ev₀.calls conn = true := by
    intro o l hl hcase
    by_cases hloop : loop = o.loop
    · rw [hloop, Function.update_self] at hl
      exact hcase hloop hl
    · rw [Function.update_of_ne hloop] at hl
      exact Or.inr ⟨ev, hl, hcalls⟩
  have hclose : ∀ {conn' : ℕ} {o : ConnObject ℓ} {ctl : Bool},
      ((s.close conn' o ctl).loops loop).ioEvsMap fd = some ev →
      s'.At conn fd loop ∨
        ∃ ev₀, (s.loops loop).ioEvsMap fd = some ev₀ ∧ ev₀.calls conn = true := by
    intro conn' o ctl hl
    unfold TcpServer.close at hl
    split_ifs at hl
    · exact Or.inr ⟨ev, hl, hcalls⟩
    · refine hupdate hl fun hloop hl => Or.inr ⟨ev, ?_, hcalls⟩
      rw [hloop]
      exact calls_delIoEvent hl
  cases h with
  | @listenRead _ _ conn' _ o _ ho =>
    refine hupdate hev fun hloop hl => ?_
    rcases calls_addIoEvent hl hcalls with ⟨rfl, rfl⟩ | hold
    · exact Or.inl ⟨o, ho, rfl, hloop.symm⟩
    · exact Or.inr (hloop ▸ hold)
  | @send conn' _ o ho =>
    refine hupdate hev fun hloop hl => ?_
    rcases calls_addIoEvent hl hcalls with ⟨rfl, rfl⟩ | hold
    · exact Or.inl ⟨o, ho, rfl, hloop.symm⟩
    · exact Or.inr (hloop ▸ hold)
  | drained =>
    refine hupdate hev fun hloop hl => Or.inr ?_
    rw [hloop]
    exact calls_delIoEventMask hl hcalls
  | close => exact hclose hev
  | destroy => exact hclose hev
  | refuse => exact Or.inr ⟨ev, hev, hcalls⟩
  | accept => exact Or.inr ⟨ev, hev, hcalls⟩
  | store => exact Or.inr ⟨ev, hev, hcalls⟩
  | deleteConnInloop => exact Or.inr ⟨ev, hev, hcalls⟩
  | hold => exact Or.inr ⟨ev, hev, hcalls⟩
  | release => exact Or.inr ⟨ev, hev, hcalls⟩

/-- The entries of the loops' tables likewise. -/
theorem Made.table_of (h : Made s e s') (htable : s'.tables loop fd = some conn) :
    s'.At conn fd loop ∨ s.tables loop fd = some conn := by
  have hupdate : ∀ {o : ConnObject ℓ} {entry : Option ℕ},
      Function.update s.tables o.loop (Function.update (s.tables o.loop) o.fd entry) loop fd =
        some conn →
      loop = o.loop ∧ fd = o.fd ∧ entry = some conn ∨ s.tables loop fd = some conn := by
    intro o entry hentry
    by_cases hloop : loop = o.loop
    · rw [hloop, Function.update_self] at hentry
      rcases update_eq_some.mp hentry with ⟨hfd, hentry⟩ | ⟨-, hentry⟩
      · exact Or.inl ⟨hloop, hfd, hentry⟩
      · exact Or.inr (hloop ▸ hentry)
    · rw [Function.update_of_ne hloop] at hentry
      exact Or.inr hentry
  have hclose : ∀ {conn' : ℕ} {o : ConnObject ℓ} {ctl : Bool},
      (s.close conn' o ctl).tables loop fd = some conn → s.tables loop fd = some conn := by
    intro conn' o ctl ht
    unfold TcpServer.close at ht
    split_ifs at ht
    · exact ht
    · rcases hupdate ht with ⟨-, -, hnone⟩ | ht
      · cases hnone
      · exact ht
  cases h with
  | @listenRead _ _ conn' _ o _ ho =>
    rcases hupdate htable with ⟨rfl, rfl, hconn⟩ | ht
    · cases hconn
      exact Or.inl ⟨o, ho, rfl, rfl⟩
    · exact Or.inr ht
  | close => exact Or.inr (hclose htable)
  | destroy => exact Or.inr (hclose htable)
  | _ => exact Or.inr htable

/-- The tasks of `listen_read` likewise. -/
theorem Made.listenTask_of (h : Made s e s') (htask : conn ∈ s'.listenTasks loop) :
    (∃ fd, s'.At conn fd loop) ∨ conn ∈ s.listenTasks loop := by
  cases h with
  | @accept fd loop' =>
    change conn ∈ Function.update s.listenTasks loop' (s.listenTasks loop' ++ [s.next]) loop
      at htask
    by_cases hloop : loop = loop'
    · rw [hloop, Function.update_self] at htask
      rcases List.mem_append.mp htask with ht | ht
      · exact Or.inr (hloop ▸ ht)
      · rw [List.mem_singleton.mp ht, hloop]
        exact Or.inl ⟨fd, { fd, loop := loop' }, Function.update_self _ _ _, rfl, rfl⟩
    · rw [Function.update_of_ne hloop] at htask
      exact Or.inr htask
  | @listenRead loop' _ conn' conns _ htasks =>
    change conn ∈ Function.update s.listenTasks loop' conns loop at htask
    by_cases hloop : loop = loop'
    · rw [hloop, Function.update_self] at htask
      rw [hloop, htasks]
      exact Or.inr (List.mem_cons_of_mem _ htask)
    · rw [Function.update_of_ne hloop] at htask
      exact Or.inr htask
  | @close conn' ctl o =>
    rw [(close_frame s conn' o ctl).listenTasks] at htask
    exact Or.inr htask
  | @destroy conn' ctl o =>
    change conn ∈ (s.close conn' o ctl).listenTasks loop at htask
    rw [(close_frame s conn' o ctl).listenTasks] at htask
    exact Or.inr htask
  | _ => exact Or.inr htask

/-- The copies of pointers likewise. -/
theorem Made.held_of (h : Made s e s') (hs : s.Booked) (hheld : conn ∈ s'.held) :
    (∃ fd loop, s'.At conn fd loop) ∨ conn ∈ s.held := by
  have hinsert : ∀ {conn' : ℕ} {o : ConnObject ℓ}, s'.objects conn' = some o →
      conn ∈ insert conn' s.held → (∃ fd loop, s'.At conn fd loop) ∨ conn ∈ s.held := by
    intro conn' o ho hc
    rcases Finset.mem_insert.mp hc with rfl | hc
    · exact Or.inl ⟨o.fd, o.loop, o, ho, rfl, rfl⟩
    · exact Or.inr hc
  cases h with
  | listenRead _ ho => exact hinsert ho hheld
  | hold ho => exact hinsert ho hheld
  | release => exact Or.inr (Finset.mem_of_mem_erase hheld)
  | @deleteConnInloop task =>
    change conn ∈ (s.mConns task.fd).elim s.held (insert · s.held) at hheld
    cases hfound : s.mConns task.fd with
    | none =>
      rw [hfound] at hheld
      exact Or.inr hheld
    | some conn' =>
      rw [hfound] at hheld
      obtain ⟨o, ho, -⟩ := hs.entry task.fd conn' hfound
      exact hinsert ho hheld
  | @close conn' ctl o =>
    rw [(close_frame s conn' o ctl).held] at hheld
    exact Or.inr hheld
  | @destroy conn' ctl o =>
    change conn ∈ (s.close conn' o ctl).held at hheld
    rw [(close_frame s conn' o ctl).held] at hheld
    exact Or.inr hheld
  | _ => exact Or.inr hheld

/-- **The step**: every step leaves all pointers attached. -/
theorem Made.attached (h : Made s e s') (hs : s.Booked) (ha : s.Attached) : s'.Attached := by
  have hkeep : ∀ {conn fd loop}, s.At conn fd loop →
      (∀ o, s.objects conn = some o → o.fd = fd → o.loop = loop → s.Referenced conn o) →
      s'.At conn fd loop := by
    intro conn fd loop hat href
    refine h.at hs hat ?_
    rintro ctl rfl
    cases h with
    | destroy ho hnot =>
      obtain ⟨o, ho', hfd, hloop⟩ := hat
      rw [ho] at ho'
      cases ho'
      exact hnot (href _ ho hfd hloop)
  constructor
  case callback =>
    intro loop fd ev conn hev hcalls
    rcases h.callback_of hev hcalls with hat | ⟨ev₀, hold, hcalls₀⟩
    · exact hat
    · refine hkeep (ha.callback loop fd ev₀ conn hold hcalls₀) ?_
      rintro o - rfl rfl
      refine Or.inr (Or.inr (Or.inr (Or.inl ?_)))
      rw [hold]
      exact hcalls₀
  case table =>
    intro loop fd conn htable
    rcases h.table_of htable with hat | hold
    · exact hat
    · refine hkeep (ha.table loop fd conn hold) ?_
      rintro o - rfl rfl
      exact Or.inr (Or.inr (Or.inr (Or.inr (Or.inl hold))))
  case listenTask =>
    intro loop conn htask
    rcases h.listenTask_of htask with hat | hold
    · exact hat
    · obtain ⟨fd, hat⟩ := ha.listenTask loop conn hold
      refine ⟨fd, hkeep hat ?_⟩
      rintro o - - rfl
      exact Or.inr (Or.inr (Or.inl hold))
  case held =>
    intro conn hheld
    rcases h.held_of hs hheld with hat | hold
    · exact hat
    · obtain ⟨fd, loop, hat⟩ := ha.held conn hold
      refine ⟨fd, loop, hkeep hat ?_⟩
      rintro o - - -
      exact Or.inr (Or.inr (Or.inr (Or.inr (Or.inr hold))))

/-- **No pointer dangles**, if the loops start with registrations of their own only. -/
theorem attached_of_run {maxConnNums : ℕ} {loops : ℓ → EventLoop ConnCallback}
    (hloops : ∀ loop fd ev conn, (loops loop).ioEvsMap fd = some ev → ev.calls conn = false)
    {es : List (ServerEvent ℓ)} {outs : List Unit}
    (h : run step (start maxConnNums loops) es = .ok (outs, s)) : s.Attached := by
  have hstart : (start maxConnNums loops).Attached :=
    { callback := fun loop fd ev conn hev hcalls => by
        rw [hloops loop fd ev conn hev] at hcalls
        cases hcalls
      table := fun _ _ _ h => by cases h
      listenTask := fun _ _ h => absurd h List.not_mem_nil
      held := fun _ h => absurd h (Finset.notMem_empty _) }
  exact (run_invariant (P := fun s : TcpServer ℓ => s.Booked ∧ s.Attached)
    (fun _ _ _ _ hs h => ⟨(made_of_step h).booked hs.1, (made_of_step h).attached hs.1 hs.2⟩)
    ⟨booked_start _ _, hstart⟩ h).2

end Pointers

end TcpServer

end Lars.Reactor
