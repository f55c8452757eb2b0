import Lars.Reactor.TcpClientRead
import Lars.Reactor.TcpConnRead
import Lars.Reactor.TcpConnWrite

/-!
# What handlers send

A message handler sends on the connection its message came on, from inside the parse loop. When the
sends succeed, the loop leaves in the output buffer the frames of what the handlers of the messages
it has dispatched have sent, behind what was there (`contents_of_loop`).
-/

namespace Lars.Reactor

open Machine Framing

/-- The message of an action that sends. -/
def UserAct.message? : UserAct → Option Dispatch
  | .send id body _ => some ⟨id, body⟩
  | .other _ => none

/-- What the handlers send for the messages dispatched in a call, in the order of the messages. -/
def Handlers.replies (h : Handlers) (ds : List Dispatch) : List Dispatch :=
  (List.range ds.length).flatMap fun i => (h.script (ds.take (i + 1))).filterMap UserAct.message?

namespace Handlers

theorem replies_append_singleton (h : Handlers) (ds : List Dispatch) (m : Dispatch) :
    h.replies (ds ++ [m]) =
      h.replies ds ++ (h.script (ds ++ [m])).filterMap UserAct.message? := by
  have hfront : ∀ i ∈ List.range ds.length,
      (h.script ((ds ++ [m]).take (i + 1))).filterMap UserAct.message? =
        (h.script (ds.take (i + 1))).filterMap UserAct.message? := by
    intro i hi
    rw [List.take_append_of_le_length (List.mem_range.mp hi)]
  have hlen : (ds ++ [m]).length = ds.length + 1 := List.length_append
  have hall : (ds ++ [m]).take (ds.length + 1) = ds ++ [m] := by rw [← hlen, List.take_length]
  rw [replies, hlen, List.range_succ, List.flatMap_append, List.flatMap_singleton, hall]
  exact congrArg (· ++ _) (List.flatMap_congr hfront)

end Handlers

theorem stream_messages (acts : List UserAct) :
    stream frame (acts.filterMap UserAct.message?) = acts.flatMap UserAct.bytes := by
  induction acts with
  | nil => rfl
  | cons act acts ih =>
    cases act with
    | send id body ctl => exact congrArg (frame ⟨id, body⟩ ++ ·) ih
    | other pool => exact ih

namespace Endpoint

variable {κ ω : Type} {K : Kind κ ω}

/-- User code whose sends succeed puts its frames behind what is in the output buffer. -/
theorem runScript_contents {acts : List UserAct} {e : Endpoint κ ω} (he : ReactorBuf.Front e.obuf)
    (hacts : Succeeds K acts e) :
    ∃ e', runScript K acts e = .ok e' ∧ ReactorBuf.Front e'.obuf ∧
      ReactorBuf.contents e'.obuf =
        ReactorBuf.contents e.obuf ++ stream frame (acts.filterMap UserAct.message?) := by
  rw [stream_messages]
  induction acts generalizing e with
  | nil => exact ⟨e, rfl, he, (List.append_nil _).symm⟩
  | cons act acts ih =>
    cases act with
    | send id body ctl =>
      obtain ⟨-, e₁, hsend, hacts⟩ := hacts
      obtain ⟨hfront, hcontents, -⟩ := send_ok he hsend
      obtain ⟨e', hrun, hfront', hcontents'⟩ := ih hfront hacts
      refine ⟨e', by rw [runScript, hsend]; exact hrun, hfront', ?_⟩
      rw [hcontents', hcontents, List.append_assoc]
      rfl
    | other pool => exact ih (e := { e with pool := pool }) he hacts

variable (K)

/-- The sends of all handlers called from a parse loop succeed. -/
def RepliesSucceed (close : Endpoint κ ω → Except Halt (Endpoint κ ω)) (h : Handlers)
    (data : IoBuf → ℕ) (s : Parsing κ ω) : Prop :=
  ∀ s' m, Reaches (parseBody K close h data) s s' → s'.Finds data m → h.registered m.id = true →
    Succeeds K (h.script (s'.dispatched ++ [m])) s'.conn

/-- No pass of a parse loop finds a length that is out of range. -/
def InRange (close : Endpoint κ ω → Except Halt (Endpoint κ ω)) (h : Handlers) (data : IoBuf → ℕ)
    (s : Parsing κ ω) : Prop :=
  ∀ s' b, Reaches (parseBody K close h data) s s' → s'.conn.ibuf = some b →
    examine b.data (data b) b.length ≠ .bad

variable {K} {close : Endpoint κ ω → Except Halt (Endpoint κ ω)} {h : Handlers} {data : IoBuf → ℕ}
  {s r : Parsing κ ω}

/-- A pass that leaves has done nothing, if it has not found a length out of range. -/
theorem parseBody_leave_eq (hp : parseBody K close h data s = .ok (.leave r))
    (hgood : ∀ b, s.conn.ibuf = some b → examine b.data (data b) b.length ≠ .bad) : r = s := by
  unfold parseBody at hp
  split at hp
  · cases hp
    rfl
  · rename_i b hb
    split at hp
    · cases hp
      rfl
    · rename_i hx
      exact absurd hx (hgood b hb)
    · cases hp
    · obtain ⟨_, -, hp⟩ := bind_eq_ok.mp hp
      obtain ⟨_, -, hp⟩ := bind_eq_ok.mp hp
      cases hp

/-- **The loop's replies**: the frames of what the handlers send are behind what the output buffer
held before the loop. -/
theorem contents_of_loop (hs : s.dispatched = []) (hfront : ReactorBuf.Front s.conn.obuf)
    (hgood : InRange K close h data s) (hreplies : RepliesSucceed K close h data s)
    (hloop : Machine.loop (parseBody K close h data) (parseBody_decreases close h data) s = .ok r) :
    ReactorBuf.Front r.conn.obuf ∧
      ReactorBuf.contents r.conn.obuf =
        ReactorBuf.contents s.conn.obuf ++ stream frame (h.replies r.dispatched) := by
  refine loop_invariant _
    (I := fun s' => Reaches (parseBody K close h data) s s' ∧ ReactorBuf.Front s'.conn.obuf ∧
      ReactorBuf.contents s'.conn.obuf =
        ReactorBuf.contents s.conn.obuf ++ stream frame (h.replies s'.dispatched))
    (Q := fun r => ReactorBuf.Front r.conn.obuf ∧
      ReactorBuf.contents r.conn.obuf =
        ReactorBuf.contents s.conn.obuf ++ stream frame (h.replies r.dispatched))
    ?_ ?_ ⟨.refl s, hfront, by rw [hs]; exact (List.append_nil _).symm⟩ hloop
  · rintro s₁ s₂ ⟨hreach, hfront₁, hcontents₁⟩ hp
    refine ⟨hreach.snoc hp, ?_⟩
    obtain ⟨m, s', ibuf, pool, hfinds, hcall, rfl⟩ := parseBody_next_conn hp
    rcases callHandler_cases hcall with ⟨hreg, conn, hrun, rfl⟩ | ⟨-, rfl⟩
    · obtain ⟨conn', hrun', hfront', hcontents'⟩ :=
        runScript_contents hfront₁ (hreplies s₁ m hreach hfinds hreg)
      obtain rfl : conn' = conn := Except.ok.inj (hrun'.symm.trans hrun)
      refine ⟨hfront', hcontents'.trans ?_⟩
      rw [hcontents₁, Handlers.replies_append_singleton, stream_append, List.append_assoc]
    · exact ⟨hfront₁, hcontents₁⟩
  · rintro s₁ r ⟨hreach, hfront₁, hcontents₁⟩ hp
    obtain rfl := parseBody_leave_eq hp fun b hb => hgood s₁ b hreach hb
    exact ⟨hfront₁, hcontents₁⟩

/-! ## A call for a chunk -/

variable (K) in
/-- The sends of the handlers called for a chunk succeed. -/
def Replying (close : Endpoint κ ω → Except Halt (Endpoint κ ω))
    (data : Option IoBuf → IoBuf → ℕ) (e : Endpoint κ ω) (ev : ReadEvent) : Prop :=
  ∀ n ibuf pool, ReactorBuf.readData e.ibuf ev.kernelRead ev.pool = .ok (n, ibuf, pool) →
    RepliesSucceed K close ev.handlers (data ibuf) ⟨{ e with ibuf := ibuf, pool := pool }, []⟩

/-- **The replies to a chunk** are behind what the output buffer held, if the bytes read, and
whatever is left of them, have no length that is out of range. -/
theorem contents_onChunk {data : Option IoBuf → IoBuf → ℕ}
    {read : KernelRead → Handlers → Endpoint κ ω → Except Halt (ReadOutcome × Endpoint κ ω)}
    {ms : List Dispatch} {e e' : Endpoint κ ω} {p : List UInt8} {ev : ReadEvent}
    {ds : List Dispatch} (he : e.Holds p) (hfront : ReactorBuf.Front e.obuf)
    (hev : Served read ms e ev)
    (hread : read ev.kernelRead ev.handlers { e with pool := ev.pool } =
      handleRead K close ev.handlers data ev.kernelRead { e with pool := ev.pool })
    (hgood : ∀ b q, b.Front → b.contents = p ++ ev.chunk →
      InRange K close ev.handlers (data (some b)) ⟨{ e with ibuf := some b, pool := q }, []⟩)
    (hreplies : Replying K close data e ev) (hcall : onChunk read e ev = .ok (ds, e')) :
    ReactorBuf.Front e'.obuf ∧
      ReactorBuf.contents e'.obuf =
        ReactorBuf.contents e.obuf ++ stream frame (ev.handlers.replies ds) := by
  obtain ⟨⟨o, e₁⟩, hr, hcall⟩ := bind_eq_ok.mp hcall
  cases hcall
  rw [hread] at hr
  have hpos : 0 < ev.chunk.length := List.length_pos_iff.mpr ev.chunk_ne
  obtain ⟨b, q, hdata, hb, hc⟩ : ∃ b q,
      ReactorBuf.readData e.ibuf ev.kernelRead ev.pool = .ok (ev.chunk.length, some b, q) ∧
        b.Front ∧ b.contents = p ++ ev.chunk := by
    rcases ReactorBuf.readData_chunk_cases he.front ev.chunk_ne ev.interruptions ev.pool with
      h | ⟨r, q, h⟩ | ⟨b, q, h, hb, hc⟩
    · cases reads hr with
      | closed hdata => exact nomatch h.symm.trans hdata
      | parsed hdata => exact nomatch h.symm.trans hdata
    · exact absurd h (hev.buffer r q)
    · exact ⟨b, q, h, hb, hc.trans (by rw [he.contents_eq])⟩
  cases reads hr with
  | closed hdata' hn =>
    cases hdata.symm.trans hdata'
    omega
  | parsed hdata' _ hloop =>
    cases hdata.symm.trans hdata'
    exact contents_of_loop rfl hfront (hgood b q hb hc) (hreplies _ _ _ hdata) hloop

/-- The handlers called are registered. -/
theorem registered_of_reads {data : Option IoBuf → IoBuf → ℕ} {k : KernelRead} {e e' : Endpoint κ ω}
    {o : ReadOutcome} (hread : handleRead K close h data k e = .ok (o, e')) :
    ∀ m ∈ o.dispatched, h.registered m.id = true := by
  cases reads hread with
  | closed => exact fun m hm => absurd hm List.not_mem_nil
  | parsed _ _ hloop =>
    refine loop_invariant _ (I := fun s => ∀ m ∈ s.dispatched, h.registered m.id = true)
      (Q := fun s => ∀ m ∈ s.dispatched, h.registered m.id = true) ?_ ?_
      (fun m hm => absurd hm List.not_mem_nil) hloop
    · intro s s' hs hp
      obtain ⟨m, s₁, ibuf, pool, -, hcall, rfl⟩ := parseBody_next_conn hp
      rcases callHandler_cases hcall with ⟨hreg, conn, -, rfl⟩ | ⟨-, rfl⟩
      · intro m' hm'
        rcases List.mem_append.mp hm' with hm' | hm'
        · exact hs m' hm'
        · rwa [List.mem_singleton.mp hm']
      · exact hs
    · intro s r hs hp
      rcases parseBody_leave hp with rfl | ⟨conn, -, rfl⟩
      · exact hs
      · exact hs

/-! ## Evaluating whether sends succeed -/

section Evaluate

variable (K close h data)

/-- Whether all sends of a run of user code succeed. -/
def evalSucceeds : List UserAct → Endpoint κ ω → Bool
  | [], _ => true
  | .send id body ctl :: acts, e =>
    match send K id body ctl e with
    | .ok (ret, e') => ctl && ret == 0 && evalSucceeds acts e'
    | .error _ => false
  | .other pool :: acts, e => evalSucceeds acts { e with pool := pool }

/-- Whether the sends of the handler called in a pass succeed. -/
def evalPass (s : Parsing κ ω) : Bool :=
  match s.conn.ibuf with
  | none => true
  | some b =>
    match examine b.data (data b) b.length with
    | .message _ m => !h.registered m.id || evalSucceeds K (h.script (s.dispatched ++ [m])) s.conn
    | _ => true

/-- Whether the sends of the handlers called in a loop of less than `n` passes succeed. -/
def evalReplies : ℕ → Parsing κ ω → Bool
  | 0, _ => false
  | n + 1, s =>
    evalPass K h data s &&
      match parseBody K close h data s with
      | .ok (.next s') => evalReplies n s'
      | _ => true

variable {K close h data}

theorem succeeds_of_eval {acts : List UserAct} {e : Endpoint κ ω}
    (heval : evalSucceeds K acts e = true) : Succeeds K acts e := by
  induction acts generalizing e with
  | nil => exact trivial
  | cons act acts ih =>
    cases act with
    | send id body ctl =>
      unfold evalSucceeds at heval
      cases hsend : send K id body ctl e with
      | error t => simp [hsend] at heval
      | ok r =>
        obtain ⟨ret, e'⟩ := r
        simp only [hsend, Bool.and_eq_true, beq_iff_eq] at heval
        obtain ⟨⟨hctl, rfl⟩, hacts⟩ := heval
        exact ⟨hctl, e', hsend, ih hacts⟩
    | other pool => exact ih (e := { e with pool := pool }) heval

theorem repliesSucceed_of_eval {n : ℕ} (heval : evalReplies K close h data n s = true) :
    RepliesSucceed K close h data s := by
  intro s' m hreach
  induction hreach generalizing n with
  | refl s =>
    rintro ⟨b, len, hb, hx⟩ hreg
    cases n with
    | zero => cases heval
    | succ n =>
      have hpass : evalPass K h data s = true := (Bool.and_eq_true _ _ ▸ heval).1
      simp only [evalPass, hb, hx, hreg, Bool.not_true, Bool.false_or] at hpass
      exact succeeds_of_eval hpass
  | next hb _ ih =>
    cases n with
    | zero => cases heval
    | succ n =>
      have hrest := (Bool.and_eq_true _ _ ▸ heval).2
      simp only [hb] at hrest
      exact ih hrest

end Evaluate

/-- Whether the sends of the handlers called for a chunk succeed, in less than `n` passes. -/
def evalReplying (K : Kind κ ω) (close : Endpoint κ ω → Except Halt (Endpoint κ ω))
    (data : Option IoBuf → IoBuf → ℕ) (n : ℕ) (e : Endpoint κ ω) (ev : ReadEvent) : Bool :=
  match ReactorBuf.readData e.ibuf ev.kernelRead ev.pool with
  | .ok (_, ibuf, pool) =>
    evalReplies K close ev.handlers (data ibuf) n ⟨{ e with ibuf := ibuf, pool := pool }, []⟩
  | .error _ => true

theorem Replying.of_eval {data : Option IoBuf → IoBuf → ℕ} (n : ℕ) {e : Endpoint κ ω}
    {ev : ReadEvent} (heval : evalReplying K close data n e ev = true) :
    Replying K close data e ev := by
  intro r ibuf pool hread
  simp only [evalReplying, hread] at heval
  exact repliesSucceed_of_eval heval

end Endpoint

/-! ## The bytes of a stream are in range -/

namespace TcpClient

theorem Rest.examine_eq {p : List UInt8} {c : TcpClient} (h : Rest p c) {b : IoBuf}
    (hb : c.ibuf = some b) : examine b.data (ReactorBuf.data (some b)) b.length = find p := by
  rw [ReactorBuf.examine_data, ← h.contents_eq, hb]
  rfl

/-- A pass on a frame leaves what is behind it. -/
theorem Rest.next {env : ClientEnv} {h : Handlers} {m : Dispatch} (hm : m.Fits) {p : List UInt8}
    {s s' : Endpoint.Parsing ClientCallback ClientOwn} (hs : Rest (frame m ++ p) s.conn)
    (hpass : Endpoint.parseBody kind (cleanConn env) h (fun b => ReactorBuf.data (some b)) s =
      .ok (.next s')) : Rest p s'.conn := by
  obtain ⟨b, len, m', hb, hx, -, -, hcont, hr⟩ := Endpoint.parseBody_next hpass
  have hown : s'.conn.own = s.conn.own := by
    obtain ⟨_, s₁, _, _, -, hcall, rfl⟩ := Endpoint.parseBody_next_conn hpass
    exact (Endpoint.callHandler_untouched hcall).own_eq
  have hfound : Found.message len m' = .message (frame m).length m :=
    hx.symm.trans ((hs.examine_eq hb).trans (find_frame hm p))
  obtain ⟨rfl, -⟩ := Found.message.inj hfound
  exact hs.pop hb hr hcont hown

/-- A client finds no length out of range in frames and a part of one. -/
theorem inRange_frames {env : ClientEnv} {h : Handlers} {ms : List Dispatch}
    (hfits : ∀ m ∈ ms, m.Fits) {p : List UInt8} (hp : Partial frame ms p) {new : List Dispatch}
    (hnew : new ⊆ ms) {c : TcpClient} (hc : Rest (stream frame new ++ p) c) :
    Endpoint.InRange kind (cleanConn env) h (fun b => ReactorBuf.data (some b)) ⟨c, []⟩ := by
  intro s b hreach hb hbad
  obtain ⟨new', hnew', hs⟩ : ∃ new', new' ⊆ ms ∧ Rest (stream frame new' ++ p) s.conn := by
    refine hreach.invariant
      (I := fun s => ∃ new', new' ⊆ ms ∧ Rest (stream frame new' ++ p) s.conn)
      ?_ ⟨new, hnew, hc⟩
    rintro s s' ⟨new', hnew', hs⟩ hpass
    cases new' with
    | nil =>
      have hwait : Endpoint.parseBody kind (cleanConn env) h (fun b => ReactorBuf.data (some b)) s =
          .ok (.leave s) := by
        refine Endpoint.parseBody_wait _ h fun b hb => ?_
        rw [hs.examine_eq hb]
        exact find_partial hfits hp
      cases hwait.symm.trans hpass
    | cons m new' =>
      rw [stream_cons, List.append_assoc] at hs
      exact ⟨new', fun x hx => hnew' (List.mem_cons_of_mem m hx),
        hs.next (hfits m (hnew' List.mem_cons_self)) hpass⟩
  rw [hs.examine_eq hb] at hbad
  cases new' with
  | nil =>
    have hwait := find_partial hfits hp
    exact nomatch hbad.symm.trans hwait
  | cons m new' =>
    rw [stream_cons, List.append_assoc,
      find_frame (hfits m (hnew' List.mem_cons_self))] at hbad
    cases hbad

/-- **A client's replies**: a call for a chunk dispatches the messages it completes, and the frames
of what their handlers send are behind what the output buffer held. -/
theorem onChunk_replies {env : ClientEnv} {ms : List Dispatch} (hfits : ∀ m ∈ ms, m.Fits)
    {c : TcpClient} (hconn : c.own.connected = true) {p : List UInt8} (hc : c.Holds p)
    (hfront : ReactorBuf.Front c.obuf) {ev : ReadEvent}
    (hev : Endpoint.Served (handleRead env true) ms c ev)
    (hreplies : Endpoint.Replying kind (cleanConn env) (fun _ b => ReactorBuf.data (some b)) c ev)
    {new : List Dispatch} (hnew : new ⊆ ms) {p' : List UInt8} (hp' : Partial frame ms p')
    (happ : p ++ ev.chunk = stream frame new ++ p') :
    ∃ c', Endpoint.onChunk (handleRead env true) c ev = .ok (new, c') ∧
      c'.own.connected = true ∧ c'.Holds p' ∧ ReactorBuf.Front c'.obuf ∧
      ReactorBuf.contents c'.obuf =
        ReactorBuf.contents c.obuf ++ stream frame (ev.handlers.replies new) := by
  obtain ⟨c', hcall, hconn', hholds⟩ := onChunk_frames hfits hconn hc hev hnew hp' happ
  refine ⟨c', hcall, hconn', hholds, ?_⟩
  refine Endpoint.contents_onChunk hc hfront hev (by simp [handleRead, hconn])
    (fun b q hb hcont => ?_) hreplies hcall
  exact inRange_frames hfits hp' hnew
    ⟨hcont.trans happ, fun b' hb' => Option.some.inj hb' ▸ hb.length_le, hconn⟩

end TcpClient

namespace TcpConn

/-- Whatever is buffered, a frame at the front of the block has a length in range. -/
theorem examine_ne_bad {m : Dispatch} (hm : m.Fits) {mem : ℕ → UInt8}
    (hmem : Memory.load mem 0 (frame m).length = frame m) (n : ℕ) : examine mem 0 n ≠ .bad := by
  rw [examine_eq_find]
  by_cases hlt : n < (frame m).length
  · have hwait : find (Memory.load mem 0 n) = .wait := by
      rw [← Memory.take_load mem 0 hlt.le, hmem]
      refine find_strictPrefix hm (t := (frame m).drop n) ?_ (List.take_append_drop _ _)
      rw [Ne, List.drop_eq_nil_iff]
      omega
    rw [hwait]
    intro h
    cases h
  · obtain ⟨k, rfl⟩ : ∃ k, n = (frame m).length + k :=
      Nat.exists_eq_add_of_le (Nat.le_of_not_lt hlt)
    rw [Memory.load_add, hmem, find_frame hm]
    intro h
    cases h

/-- A connection finds no length out of range in frames and a part of one. -/
theorem inRange_frames {ctl : Bool} {h : Handlers} {ms : List Dispatch}
    (hfits : ∀ m ∈ ms, m.Fits) {p : List UInt8} (hp : Partial frame ms p) {new : List Dispatch}
    (hnew : new ⊆ ms) {c : TcpConn} {b : IoBuf} (hb : b.Front)
    (hcont : b.contents = stream frame new ++ p) (q : BufPool) :
    Endpoint.InRange kind (handleClose ctl) h (fun _ => ReactorBuf.data (some b))
      ⟨{ c with ibuf := some b, pool := q }, []⟩ := by
  have hdata : ReactorBuf.data (some b) = 0 := hb.head_eq
  have hload : Memory.load b.data 0 b.length = stream frame new ++ p := by
    rw [← hcont, IoBuf.contents, hb.head_eq]
  rw [hdata]
  intro s b₁ hreach hb₁
  cases new with
  | nil =>
    -- nothing is complete, and the loop has not moved
    have hwait : examine b.data 0 b.length = .wait := by
      rw [examine_eq_find, hload]
      exact find_partial hfits hp
    obtain rfl : b = b₁ := by
      refine Option.some.inj (Eq.trans ?_ hb₁)
      refine (hreach.invariant (I := fun s => s.conn.ibuf = some b) ?_ rfl).symm
      intro s s' hs hpass
      have hleave : Endpoint.parseBody kind (handleClose ctl) h (fun _ => 0) s =
          .ok (.leave s) := by
        refine Endpoint.parseBody_wait _ h fun b' hb' => ?_
        obtain rfl : b = b' := Option.some.inj (hs.symm.trans hb')
        exact hwait
      cases hleave.symm.trans hpass
    rw [hwait]
    intro h
    cases h
  | cons m new =>
    have hm : m.Fits := hfits m (hnew List.mem_cons_self)
    rw [stream_cons, List.append_assoc] at hload
    have hmem : Memory.load b.data 0 (frame m).length = frame m := by
      have hle : (frame m).length ≤ b.length := by
        have hlen := congrArg List.length hload
        rw [Memory.length_load, List.length_append] at hlen
        omega
      rw [← Memory.take_load b.data 0 hle, hload, List.take_left]
    obtain ⟨n, hleft⟩ : ∃ n, Left b.data n s.conn.ibuf := by
      refine hreach.invariant (I := fun s => ∃ n, Left b.data n s.conn.ibuf) ?_
        ⟨b.length, rfl, fun b' hb' => Option.some.inj hb' ▸ ⟨rfl, hb.length_le⟩⟩
      rintro s s' ⟨n, hs⟩ hpass
      obtain ⟨b', len, m', hb', -, -, -, hc, hr⟩ := Endpoint.parseBody_next hpass
      rw [hb'] at hs
      exact ⟨n - len, hs.pop hr hc⟩
    rw [(hleft.block b₁ hb₁).1]
    exact examine_ne_bad hm hmem b₁.length

theorem registered_of_handleRead {ctl : Bool} {k : KernelRead} {h : Handlers} {c c' : TcpConn}
    {o : ReadOutcome} (hread : handleRead ctl k h c = .ok (o, c')) :
    ∀ m ∈ o.dispatched, h.registered m.id = true := by
  unfold handleRead at hread
  exact Endpoint.registered_of_reads hread

/-- **A connection's replies**: a call for a chunk that the loop gets right. -/
theorem onChunk_replies {ctl : Bool} {ms : List Dispatch} (hfits : ∀ m ∈ ms, m.Fits) {c : TcpConn}
    {p : List UInt8} (hc : c.Holds p) (hfront : ReactorBuf.Front c.obuf) {ev : ReadEvent}
    (hev : Endpoint.Served (handleRead ctl) ms c ev)
    (hreplies : Endpoint.Replying kind (handleClose ctl) (fun entry _ => ReactorBuf.data entry) c
      ev)
    {new : List Dispatch} (hnew : new ⊆ ms) {p' : List UInt8} (hp' : Partial frame ms p')
    (happ : p ++ ev.chunk = stream frame new ++ p') (hrep : Repeats new p') :
    ∃ c', Endpoint.onChunk (handleRead ctl) c ev = .ok (new, c') ∧ c'.Holds p' ∧
      ReactorBuf.Front c'.obuf ∧
      ReactorBuf.contents c'.obuf =
        ReactorBuf.contents c.obuf ++ stream frame (ev.handlers.replies new) := by
  obtain ⟨c', hcall, hholds⟩ := onChunk_repeats hc hev hfits hnew hp' happ hrep
  refine ⟨c', hcall, hholds, ?_⟩
  exact Endpoint.contents_onChunk hc hfront hev rfl
    (fun b q hb hcont => inRange_frames hfits hp' hnew hb (hcont.trans happ) q) hreplies hcall

end TcpConn

end Lars.Reactor
