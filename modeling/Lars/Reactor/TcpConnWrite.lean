import Lars.Reactor.TcpConn

/-!
# Writing on a connection

`tcp_conn::send` appends a frame to the output buffer and asks for `EPOLLOUT` when the buffer was
empty; `tcp_conn::handle_write` writes as much as the socket takes and gives `EPOLLOUT` back when
the buffer is empty again.

* `written_append_pending`: over any interleaving of the two, the bytes the socket has accepted
  followed by the bytes in the buffer are the frames sent, and `EPOLLOUT` is registered exactly
  while there are any to write. What the socket has accepted is what it has taken by its answers
  (`transmit`).
-/

namespace Lars.Reactor

open Machine Framing

namespace ReactorBuf

/-- A frame sent is behind the bytes held before. -/
theorem sendFrame_ok {r r' : Option IoBuf} (hr : Front r) {id : Int32} {body : List UInt8}
    {p p' : BufPool} {n : ℤ} (h : sendFrame r id body p = .ok (n, r', p')) (hn : ¬ n < 0) :
    Front r' ∧ contents r' = contents r ++ frame ⟨id, body⟩ := by
  cases sendsFrame h with
  | headerRefused => omega
  | bodyRefused => omega
  | @appended n₁ n₂ b₁ p₁ _ _ h₁ hn₁ h₂ hn₂ =>
    obtain ⟨hf₁, hc₁⟩ := writeData_front hr h₁ hn₁
    obtain ⟨hf₂, hc₂⟩ := writeData_front hf₁ h₂ hn₂
    refine ⟨hf₂, hc₂.trans ?_⟩
    rw [hc₁, frame, List.append_assoc]

/-! ## What the socket takes -/

/-- The bytes that a socket takes of `l`, offered to it again and again, by its answers alone. -/
def taken : List WriteAnswer → List UInt8 → List UInt8
  | .accepted k :: rest, l => l.take (k + 1) ++ taken rest (l.drop (k + 1))
  | .interrupted :: rest, l => taken rest l
  | _, _ => []

@[simp] theorem taken_nil : ∀ answers : List WriteAnswer, taken answers [] = []
  | [] => rfl
  | .accepted _ :: rest => taken_nil rest
  | .interrupted :: rest => taken_nil rest
  | .wouldBlock :: _ => rfl
  | .failed :: _ => rfl

/-- A `write` and its retries report what the socket takes, up to the next `write`. -/
theorem taken_writeRetry {b : IoBuf} (hb : b.Front) : ∀ answers : List WriteAnswer,
    taken answers b.contents = (writeRetry b answers).accepted ++
      if 0 < (writeRetry b answers).hasWrite then
        taken (writeRetry b answers).answers (writeRetry b answers).buf.contents else []
  | [] => rfl
  | .interrupted :: rest => taken_writeRetry hb rest
  | .wouldBlock :: _ => rfl
  | .failed :: _ => rfl
  | .accepted k :: rest => by
    have hle : min (k + 1) b.length ≤ b.length := Nat.min_le_right _ _
    have hload : Memory.load b.data 0 (min (k + 1) b.length) = b.contents.take (k + 1) := by
      rw [IoBuf.contents, hb.head_eq, ← Memory.take_load _ _ hle, List.take_eq_take_iff]
      simp
    simp only [taken, writeRetry, hload]
    by_cases hpos : 0 < min (k + 1) b.length
    · have hdrop : b.contents.drop (min (k + 1) b.length) = b.contents.drop (k + 1) := by
        rw [List.drop_eq_drop_iff, b.length_contents]
        simp
      rw [if_pos (by exact_mod_cast hpos), if_pos hpos, IoBuf.contents_adjust,
        IoBuf.contents_pop b hle, hdrop]
    · have hzero : b.length = 0 := by omega
      have hnil : b.contents = [] := List.eq_nil_of_length_eq_zero (b.length_contents.trans hzero)
      rw [if_neg (by exact_mod_cast hpos), hnil, List.drop_nil, taken_nil]

/-- **The loop of `handle_write`** reports what the socket takes. -/
theorem drain_accepted {r : Option IoBuf} (hr : Front r) {answers : List WriteAnswer}
    {o : Bool × Draining} (h : drain r answers = .ok o) :
    o.2.accepted = taken answers (contents r) := by
  have htotal : ∃ o, drain r answers = .ok o ∧ o.2.accepted = taken answers (contents r) := by
    refine loop_total drainBody_decreases
      (I := fun s => Front s.buf ∧ s.accepted ++ taken s.answers (contents s.buf) =
        taken answers (contents r)) (Q := fun o => o.2.accepted = taken answers (contents r))
      ?_ ⟨hr, rfl⟩
    rintro ⟨buf, acc, ans⟩ ⟨hf, hacc⟩
    simp only at hf hacc
    by_cases hlen : length buf > 0
    · obtain ⟨b, rfl⟩ := exists_eq_some_of_length_pos hlen
      have hb : b.Front := front_some.mp hf
      change acc ++ taken ans b.contents = _ at hacc
      rw [taken_writeRetry hb ans, ← List.append_assoc] at hacc
      simp only [drainBody, hlen, if_true, write2fd, hb.head_eq, ok_bind]
      by_cases hpos : 0 < (writeRetry b ans).hasWrite
      · rw [if_neg hpos.not_gt, if_neg hpos.ne']
        rw [if_pos hpos] at hacc
        exact Or.inl ⟨_, rfl, front_some.mpr (writeRetry_spec hb ans).2, hacc⟩
      · rw [if_neg hpos, List.append_nil] at hacc
        split_ifs
        · exact Or.inr ⟨_, rfl, hacc⟩
        · exact Or.inr ⟨_, rfl, hacc⟩
        · omega
    · have hnil : contents buf = [] := List.eq_nil_of_length_eq_zero
        ((length_contents buf).trans (Nat.eq_zero_of_not_pos hlen))
      rw [hnil, taken_nil, List.append_nil] at hacc
      simp only [drainBody, hlen, if_false]
      exact Or.inr ⟨_, rfl, hacc⟩
  obtain ⟨o', ho', hacc⟩ := htotal
  cases ho'.symm.trans h
  exact hacc

end ReactorBuf

namespace Endpoint

variable {κ ω : Type} {K : Kind κ ω}

/-- What a `send` that succeeds does. -/
theorem send_ok {e e' : Endpoint κ ω} (he : ReactorBuf.Front e.obuf) {id : Int32}
    {body : List UInt8} {ctl : Bool} (h : send K id body ctl e = .ok (0, e')) :
    ReactorBuf.Front e'.obuf ∧
      ReactorBuf.contents e'.obuf = ReactorBuf.contents e.obuf ++ frame ⟨id, body⟩ ∧
      e'.loop = if ReactorBuf.length e.obuf = 0 then
        e.loop.addIoEvent ctl e.fd epollOut (K.onWrite e.own) else e.loop := by
  cases sends h with
  | first _ hsend hn hempty =>
    obtain ⟨hf, hc⟩ := ReactorBuf.sendFrame_ok he hsend hn
    exact ⟨hf, hc, (if_pos hempty).symm⟩
  | behind _ hsend hn hpending =>
    obtain ⟨hf, hc⟩ := ReactorBuf.sendFrame_ok he hsend hn
    exact ⟨hf, hc, (if_neg hpending).symm⟩

/-- What `handle_write` does when no `write` fails. -/
theorem handleWrite_ok (close : Endpoint κ ω → Except Halt (Endpoint κ ω)) (ctl : Bool)
    {answers : List WriteAnswer} (hans : .failed ∉ answers) {e : Endpoint κ ω}
    (he : ReactorBuf.Front e.obuf) :
    ∃ l e', handleWrite close ctl answers e = .ok (l, e') ∧ ReactorBuf.Front e'.obuf ∧
      l = ReactorBuf.taken answers (ReactorBuf.contents e.obuf) ∧
      l ++ ReactorBuf.contents e'.obuf = ReactorBuf.contents e.obuf ∧ Untouched e e' ∧
      e'.loop = if ReactorBuf.length e'.obuf = 0 then e.loop.delIoEventMask ctl e.fd epollOut
        else e.loop := by
  obtain ⟨⟨failed, d⟩, hdrain, hbytes, hf⟩ := ReactorBuf.drain_spec he answers
  have hok : failed = false := by
    cases failed with
    | false => rfl
    | true => exact absurd (ReactorBuf.drain_failed hdrain rfl) hans
  subst hok
  have htaken := ReactorBuf.drain_accepted he hdrain
  unfold handleWrite
  simp only [hdrain, ok_bind, Bool.false_eq_true, if_false]
  by_cases hzero : ReactorBuf.length d.buf = 0
  · rw [if_pos hzero]
    exact ⟨_, _, rfl, hf, htaken, hbytes, ⟨rfl, rfl, rfl⟩, (if_pos hzero).symm⟩
  · rw [if_neg hzero]
    exact ⟨_, _, rfl, hf, htaken, hbytes, ⟨rfl, rfl, rfl⟩, (if_neg hzero).symm⟩

variable (K)

/-- All sends of a run of user code succeed, `epoll_ctl` included. -/
def Succeeds : List UserAct → Endpoint κ ω → Prop
  | [], _ => True
  | .send id body ctl :: acts, e =>
    ctl = true ∧ ∃ e', send K id body ctl e = .ok (0, e') ∧ Succeeds acts e'
  | .other pool :: acts, e => Succeeds acts { e with pool := pool }

end Endpoint

/-- The bytes of an action that the peer is to receive. -/
def UserAct.bytes : UserAct → List UInt8
  | .send id body _ => frame ⟨id, body⟩
  | .other _ => []

namespace TcpConn

/-- The bytes of a call that the peer is to receive. -/
def Call.bytes : Call → List UInt8
  | .send id body => frame ⟨id, body⟩
  | _ => []

/-- The bytes that the socket has taken and those still to be taken, after a call: a `send` adds its
frame, and the socket takes what it takes by its answers. -/
def transmit (w : List UInt8 × List UInt8) (ev : Event) : List UInt8 × List UInt8 :=
  match ev.call with
  | .send id body => (w.1, w.2 ++ frame ⟨id, body⟩)
  | .handleWrite answers =>
    let l := ReactorBuf.taken answers w.2
    (w.1 ++ l, w.2.drop l.length)
  | .handleRead _ _ => w

/-- A call of the interleavings considered: `epoll_ctl` succeeds, and the call is a `send` that
succeeds or a `handle_write` in which no `write` fails. -/
def Flows (c : TcpConn) (ev : Event) : Prop :=
  ev.ctl = true ∧
  match ev.call with
  | .send _ _ => ∃ c', step c ev = .ok (.sent 0, c')
  | .handleWrite answers => .failed ∉ answers
  | .handleRead _ _ => False

theorem flows_send {c : TcpConn} {id : Int32} {body : List UInt8} {pool : BufPool}
    (h : output (step c ⟨.send id body, pool, true⟩) = some (.sent 0)) :
    Flows c ⟨.send id body, pool, true⟩ := ⟨rfl, output_eq_some.mp h⟩

theorem flows_handleWrite {c : TcpConn} {answers : List WriteAnswer} {pool : BufPool}
    (h : .failed ∉ answers) : Flows c ⟨.handleWrite answers, pool, true⟩ := ⟨rfl, h⟩

/-- The registration of a connection that is listening, `writing` or not. -/
def listening (self : ℕ) (writing : Bool) (write : Option ConnCallback) : IoEvent ConnCallback where
  event := if writing then epollIn ||| epollOut else epollIn
  readCallback := some (.handleRead self)
  writeCallback := write

theorem listening_has (self : ℕ) (writing : Bool) (write : Option ConnCallback) :
    (listening self writing write).event.has epollIn = true ∧
      (listening self writing write).event.has epollOut = writing := by
  cases writing with
  | false =>
    exact ⟨(by decide : epollIn.has epollIn = true), (by decide : epollIn.has epollOut = false)⟩
  | true =>
    exact ⟨(by decide : (epollIn ||| epollOut).has epollIn = true),
      (by decide : (epollIn ||| epollOut).has epollOut = true)⟩

/-- The state of a connection that was to send the bytes `sent`, of which `wire` have been accepted.
-/
structure Sending (sent wire : List UInt8) (c : TcpConn) : Prop where
  front : ReactorBuf.Front c.obuf
  bytes_eq : wire ++ ReactorBuf.contents c.obuf = sent
  inSync : c.loop.InSync c.fd
  registered : ∃ write, c.loop.ioEvsMap c.fd =
    some (listening c.own.self (0 < ReactorBuf.length c.obuf) write)

theorem registered_add {l : EventLoop ConnCallback} {fd : ℤ} {self : ℕ}
    {write : Option ConnCallback} (h : l.ioEvsMap fd = some (listening self false write))
    (ctl : Bool) :
    (l.addIoEvent ctl fd epollOut (.handleWrite self)).ioEvsMap fd =
      some (listening self true (some (.handleWrite self))) := by
  rw [EventLoop.addIoEvent_ioEvsMap, Function.update_self, h]
  rfl

theorem registered_del {l : EventLoop ConnCallback} {fd : ℤ} {self : ℕ} {writing : Bool}
    {write : Option ConnCallback} (h : l.ioEvsMap fd = some (listening self writing write))
    (ctl : Bool) :
    (l.delIoEventMask ctl fd epollOut).ioEvsMap fd = some (listening self false write) := by
  have hne : ¬ epollIn = 0#32 := by decide
  have hmask : (if writing then epollIn ||| epollOut else epollIn) &&& ~~~epollOut = epollIn := by
    cases writing <;> decide
  rw [EventLoop.delIoEventMask_ioEvsMap, Function.update_self, h, Option.bind_some, listening,
    hmask, if_neg hne]
  rfl

variable {sent wire : List UInt8} {c c' : TcpConn}

theorem Sending.send (hc : Sending sent wire c) {id : Int32} {body : List UInt8}
    (h : send id body true c = .ok (0, c')) : Sending (sent ++ frame ⟨id, body⟩) wire c' := by
  obtain ⟨hf, hbytes, hloop⟩ := Endpoint.send_ok hc.front h
  obtain ⟨hfd, -, hown⟩ := Endpoint.send_untouched h
  obtain ⟨write, hreg⟩ := hc.registered
  have hpos : 0 < ReactorBuf.length c'.obuf := by
    have := List.length_pos_iff.mpr (frame_ne_nil ⟨id, body⟩)
    rw [← ReactorBuf.length_contents, hbytes, List.length_append]
    omega
  refine ⟨hf, by rw [hbytes, ← List.append_assoc, hc.bytes_eq], ?_, ?_⟩
  · rw [hloop, hfd]
    split_ifs
    · exact EventLoop.addIoEvent_inSync hc.inSync _ _
    · exact hc.inSync
  · rw [hloop, hfd, hown, decide_eq_true hpos]
    split_ifs with hzero
    · rw [hzero] at hreg
      exact ⟨_, registered_add hreg true⟩
    · exact ⟨write, by rw [hreg, decide_eq_true (Nat.pos_of_ne_zero hzero)]⟩

theorem Sending.handleWrite (hc : Sending sent wire c) {answers : List WriteAnswer}
    (hans : .failed ∉ answers) :
    ∃ l c', handleWrite true answers c = .ok (l, c') ∧ Sending sent (wire ++ l) c' ∧
      l = ReactorBuf.taken answers (ReactorBuf.contents c.obuf) ∧
      ReactorBuf.contents c'.obuf = (ReactorBuf.contents c.obuf).drop l.length := by
  obtain ⟨l, c', h, hf, htaken, hbytes, ⟨hfd, -, hown⟩, hloop⟩ :=
    Endpoint.handleWrite_ok (handleClose true) true hans hc.front
  obtain ⟨write, hreg⟩ := hc.registered
  refine ⟨l, c', h, ⟨hf, by rw [List.append_assoc, hbytes, hc.bytes_eq], ?_, ?_⟩, htaken,
    by rw [← hbytes, List.drop_left]⟩
  · rw [hloop, hfd]
    split_ifs
    · exact EventLoop.delIoEventMask_inSync hc.inSync _
    · exact hc.inSync
  · rw [hloop, hfd, hown]
    split_ifs with hzero
    · rw [hzero]
      exact ⟨write, registered_del hreg true⟩
    · have hlen : ReactorBuf.length c'.obuf ≤ ReactorBuf.length c.obuf := by
        rw [← ReactorBuf.length_contents, ← ReactorBuf.length_contents c.obuf, ← hbytes,
          List.length_append]
        exact Nat.le_add_left _ _
      have hpos : 0 < ReactorBuf.length c'.obuf := Nat.pos_of_ne_zero hzero
      exact ⟨write, by rw [hreg, decide_eq_true hpos, decide_eq_true (hpos.trans_le hlen)]⟩

/-- The pool a call finds does not matter to the invariant. -/
theorem Sending.pool (hc : Sending sent wire c) (pool : BufPool) :
    Sending sent wire { c with pool := pool } :=
  ⟨hc.front, hc.bytes_eq, hc.inSync, hc.registered⟩

/-- **A call keeps the invariant.** -/
theorem Sending.step (hc : Sending sent wire c) {ev : Event} (hev : Flows c ev) :
    ∃ o c', TcpConn.step c ev = .ok (o, c') ∧
      Sending (sent ++ ev.call.bytes) (wire ++ o.accepted) c' ∧
      (wire ++ o.accepted, ReactorBuf.contents c'.obuf) =
        transmit (wire, ReactorBuf.contents c.obuf) ev := by
  obtain ⟨call, pool, ctl⟩ := ev
  obtain ⟨rfl, hcall⟩ := hev
  cases call with
  | handleRead k h => exact hcall.elim
  | handleWrite answers =>
    obtain ⟨l, c', h, hc', rfl, hleft⟩ := (hc.pool pool).handleWrite hcall
    refine ⟨.wrote _, c', by simp only [TcpConn.step, h, ok_bind], ?_, Prod.ext rfl hleft⟩
    simpa only [Call.bytes, Shown.accepted, List.append_nil] using hc'
  | send id body =>
    obtain ⟨c', h⟩ := hcall
    refine ⟨.sent 0, c', h, ?_⟩
    obtain ⟨⟨ret, c₁⟩, hsend, h⟩ := bind_eq_ok.mp h
    cases h
    have hbytes := (Endpoint.send_ok (hc.pool pool).front hsend).2.1
    refine ⟨?_, Prod.ext (List.append_nil wire) hbytes⟩
    simpa only [Call.bytes, Shown.accepted, List.append_nil] using (hc.pool pool).send hsend

/-- **Runs keep the invariant.** -/
theorem Sending.run {es : List Event} : ∀ {sent wire : List UInt8} {c : TcpConn},
    Sending sent wire c → Along TcpConn.step Flows c es →
    ∃ outs c', Machine.run TcpConn.step c es = .ok (outs, c') ∧
      Sending (sent ++ es.flatMap fun ev => ev.call.bytes) (wire ++ outs.flatMap Shown.accepted)
        c' ∧
      (wire ++ outs.flatMap Shown.accepted, ReactorBuf.contents c'.obuf) =
        es.foldl transmit (wire, ReactorBuf.contents c.obuf) := by
  induction es with
  | nil =>
    intro sent wire c hc _
    exact ⟨[], c, rfl, by simpa using hc, by simp⟩
  | cons ev es ih =>
    intro sent wire c hc hes
    obtain ⟨o, c₁, hstep, hc₁, hw₁⟩ := hc.step hes.1
    obtain ⟨outs, c', hrun, hc', hw'⟩ := ih hc₁ (hes.2 o c₁ hstep)
    refine ⟨o :: outs, c', run_cons_eq_ok.mpr ⟨o, c₁, outs, hstep, hrun, rfl⟩, ?_, ?_⟩
    · rwa [List.flatMap_cons, List.flatMap_cons, ← List.append_assoc, ← List.append_assoc]
    · rw [List.flatMap_cons, ← List.append_assoc, List.foldl_cons, ← hw₁, hw']

/-- What an `on_build` callback sends is sent. -/
theorem Sending.script {acts : List UserAct} : ∀ {sent : List UInt8} {c : TcpConn},
    Sending sent wire c → Endpoint.Succeeds kind acts c →
    ∃ c', Endpoint.runScript kind acts c = .ok c' ∧
      Sending (sent ++ acts.flatMap UserAct.bytes) wire c' := by
  induction acts with
  | nil =>
    intro sent c hc _
    exact ⟨c, rfl, by simpa using hc⟩
  | cons act acts ih =>
    intro sent c hc hacts
    cases act with
    | send id body ctl =>
      obtain ⟨rfl, c₁, hsend, hacts⟩ := hacts
      obtain ⟨c', hrun, hc'⟩ := ih (hc.send hsend) hacts
      refine ⟨c', ?_, by rwa [List.flatMap_cons, ← List.append_assoc]⟩
      rw [Endpoint.runScript, hsend, ok_bind]
      exact hrun
    | other pool => exact ih (hc.pool pool) hacts

/-- The connection as `listen_read` registers it. -/
def registered (c : TcpConn) : TcpConn :=
  { c with loop := c.loop.addIoEvent true c.fd epollIn (.handleRead c.own.self) }

/-- A connection that is listening has sent what its `on_build` callback has. -/
theorem sending_listenRead {c c' : TcpConn} (hobuf : c.obuf = none)
    (hfree : c.loop.ioEvsMap c.fd = none) (hsync : c.loop.InSync c.fd) {onBuild : List UserAct}
    (hbuild : Endpoint.Succeeds kind onBuild c.registered)
    (h : listenRead true onBuild c = .ok c') :
    Sending (onBuild.flatMap UserAct.bytes) [] c' := by
  have hstart : Sending [] [] c.registered := by
    refine ⟨fun b hb => ?_, ?_, EventLoop.addIoEvent_inSync hsync _ _, none, ?_⟩
    · exact nomatch hobuf.symm.trans hb
    · rw [registered, hobuf]
      rfl
    · have hlen : ReactorBuf.length c.registered.obuf = 0 := by
        rw [registered, hobuf]
        rfl
      rw [hlen]
      exact EventLoop.addIoEvent_new hfree true epollIn _
  obtain ⟨c₁, hrun, hc₁⟩ := hstart.script hbuild
  obtain ⟨c₂, hrun', h⟩ := bind_eq_ok.mp h
  obtain rfl : c₁ = c₂ := Except.ok.inj (hrun.symm.trans hrun')
  cases h
  exact ⟨hc₁.front, hc₁.bytes_eq, hc₁.inSync, hc₁.registered⟩

/-- **Outgoing bytes.** On a connection that has been opened and is listening, over any interleaving
of successful sends and of writes that do not fail: no call ends the process (in particular no
`assert` fails), the bytes the socket has accepted followed by those in the buffer are the frames
sent in order, `EPOLLIN` is registered, and `EPOLLOUT` is if and only if the buffer is not empty;
and the kernel's interest is what is registered. What the socket has accepted, and what it has not,
is what it has taken of the frames by its answers, and what it has not. -/
theorem written_append_pending {c₀ c : TcpConn} (hobuf : c₀.obuf = none)
    (hfree : c₀.loop.ioEvsMap c₀.fd = none) (hsync : c₀.loop.InSync c₀.fd)
    {onBuild : List UserAct} (hbuild : Endpoint.Succeeds kind onBuild c₀.registered)
    (hlisten : listenRead true onBuild c₀ = .ok c) {es : List Event}
    (hes : Along TcpConn.step Flows c es) :
    ∃ outs c', Machine.run TcpConn.step c es = .ok (outs, c') ∧
      outs.flatMap Shown.accepted ++ ReactorBuf.contents c'.obuf =
        onBuild.flatMap UserAct.bytes ++ (es.flatMap fun ev => ev.call.bytes) ∧
      (outs.flatMap Shown.accepted, ReactorBuf.contents c'.obuf) =
        es.foldl transmit ([], onBuild.flatMap UserAct.bytes) ∧
      ∃ ev, c'.loop.ioEvsMap c'.fd = some ev ∧ c'.loop.interest c'.fd = some ev.event ∧
        ev.event.has epollIn = true ∧
        (ev.event.has epollOut = true ↔ 0 < ReactorBuf.length c'.obuf) := by
  have hstart := sending_listenRead hobuf hfree hsync hbuild hlisten
  have hpending : ReactorBuf.contents c.obuf = onBuild.flatMap UserAct.bytes := hstart.bytes_eq
  obtain ⟨outs, c', hrun, hc', hwire⟩ := hstart.run hes
  rw [List.nil_append, hpending] at hwire
  obtain ⟨write, hreg⟩ := hc'.registered
  have hint := hc'.inSync.1
  rw [hreg] at hint
  obtain ⟨hin, hout⟩ := listening_has c'.own.self (0 < ReactorBuf.length c'.obuf) write
  exact ⟨outs, c', hrun, hc'.bytes_eq, hwire, _, hreg, hint, hin,
    by rw [hout, decide_eq_true_iff]⟩

/-- A frame written in two parts, with a send in between. -/
theorem written_append_pending_short : ∃ c outs c',
    listenRead true [] (new 1 5 {} (fun _ => none) (.ofCounts fun _ => 2)) = .ok c ∧
    Machine.run TcpConn.step c
      [⟨.send 2 [98], .ofCounts fun _ => 2, true⟩,
        ⟨.handleWrite [.interrupted, .accepted 3, .wouldBlock], .ofCounts fun _ => 2, true⟩,
        ⟨.send 1 [104, 105], .ofCounts fun _ => 2, true⟩,
        ⟨.handleWrite [.accepted 99], .ofCounts fun _ => 2, true⟩] = .ok (outs, c') ∧
    outs.flatMap Shown.accepted ++ ReactorBuf.contents c'.obuf =
      frame ⟨2, [98]⟩ ++ frame ⟨1, [104, 105]⟩ := by
  have hes : Along TcpConn.step Flows
      { (new 1 5 {} (fun _ => none) (.ofCounts fun _ => 2)).registered with
        own := ⟨1, .connected, Function.update (fun _ => none) 5 (some 1), []⟩ }
      [⟨.send 2 [98], .ofCounts fun _ => 2, true⟩,
        ⟨.handleWrite [.interrupted, .accepted 3, .wouldBlock], .ofCounts fun _ => 2, true⟩,
        ⟨.send 1 [104, 105], .ofCounts fun _ => 2, true⟩,
        ⟨.handleWrite [.accepted 99], .ofCounts fun _ => 2, true⟩] :=
    along_cons (flows_send (by decide)) (along_cons (flows_handleWrite (by decide))
      (along_cons (flows_send (by decide)) (along_cons (flows_handleWrite (by decide))
        (along_nil _ _))))
  obtain ⟨outs, c', hrun, hbytes, -⟩ := @written_append_pending
    (new 1 5 {} (fun _ => none) (.ofCounts fun _ => 2)) _ rfl rfl ⟨rfl, by simp [new]⟩ [] trivial
    rfl _ hes
  exact ⟨_, outs, c', rfl, hrun, hbytes⟩

end TcpConn

end Lars.Reactor
