import Lars.Reactor.TcpConn

/-!
# Reading on a connection

`tcp_conn::handle_read` looks for every header at the place where the first one was, since `data` is
taken before the loop. A call that starts on the frame of a message `m` therefore dispatches `m`
again for as long as a frame's worth of bytes is left (`parse_stale`), whatever those bytes are.

* `handleRead_delivers_iff`: a stream of messages is delivered right if and only if the messages
  each chunk completes are all equal and less than another frame of theirs is left behind them.
-/

namespace Lars.Reactor

open Machine Memory Framing

namespace TcpConn

/-- The messages `new` a chunk completes and the bytes `p` it leaves that the loop gets right,
having read the first header only. -/
def Repeats (new : List Dispatch) (p : List UInt8) : Prop :=
  ∀ m ∈ new, ∀ m' ∈ new, m' = m ∧ p.length < (frame m).length

instance (new : List Dispatch) (p : List UInt8) : Decidable (Repeats new p) :=
  inferInstanceAs (Decidable (∀ m ∈ new, ∀ m' ∈ new, _))

/-! ## The parse loop -/

/-- The input buffer of a parse loop over the block `mem`, with `n` bytes left. -/
structure Left (mem : ℕ → UInt8) (n : ℕ) (r : Option IoBuf) : Prop where
  length_eq : ReactorBuf.length r = n
  block : ∀ b, r = some b → b.data = mem ∧ b.length ≤ b.capacity

theorem Left.pop {mem : ℕ → UInt8} {n len : ℕ} {b : IoBuf} {r : Option IoBuf}
    (hb : Left mem n (some b)) (hr : r = none ∨ r = some (b.pop len))
    (hc : ReactorBuf.contents r = b.contents.drop len) : Left mem (n - len) r := by
  obtain ⟨hmem, hcap⟩ := hb.block b rfl
  have hn : b.length = n := hb.length_eq
  refine ⟨?_, fun b' hb' => ?_⟩
  · rw [← ReactorBuf.length_contents, hc, List.length_drop, IoBuf.length_contents, hn]
  · obtain rfl : b' = b.pop len := by
      rcases hr with rfl | rfl
      · cases hb'
      · exact (Option.some.inj hb').symm
    have hlen : (b.pop len).length ≤ b.length := Nat.sub_le _ _
    exact ⟨hmem, hlen.trans hcap⟩

/-- **The parse loop on a frame**: its message is dispatched as often as the frame's length goes
into what is buffered. -/
theorem parse_stale {ctl : Bool} {h : Handlers} {m : Dispatch} (hm : m.Fits)
    (hreg : h.registered m.id = true) {mem : ℕ → UInt8}
    (hmem : load mem 0 (frame m).length = frame m) :
    ∀ {n : ℕ} {s : Endpoint.Parsing ConnCallback ConnOwn}, Left mem n s.conn.ibuf →
      ExitsOrOverreads (Machine.loop (Endpoint.parseBody kind (handleClose ctl) h fun _ => 0)
        (Endpoint.parseBody_decreases (handleClose ctl) h _) s) ∨
      ∃ s', Machine.loop (Endpoint.parseBody kind (handleClose ctl) h fun _ => 0)
          (Endpoint.parseBody_decreases (handleClose ctl) h _) s = .ok s' ∧
        s'.dispatched = s.dispatched ++ List.replicate (n / (frame m).length) m ∧
        ReactorBuf.contents s'.conn.ibuf =
          (ReactorBuf.contents s.conn.ibuf).drop (n / (frame m).length * (frame m).length) ∧
        ∀ b, s'.conn.ibuf = some b → b.length ≤ b.capacity := by
  have hpos : 0 < (frame m).length := List.length_pos_iff.mpr (frame_ne_nil m)
  intro n
  induction n using Nat.strong_induction_on with
  | _ n ih =>
    intro s hs
    by_cases hlt : n < (frame m).length
    · -- what is left is shorter than the frame it is taken for
      refine Or.inr ⟨s, loop_leave _ (Endpoint.parseBody_wait _ _ fun b hb => ?_), ?_, ?_,
        fun b hb => (hs.block b hb).2⟩
      · have hn : b.length = n := by simpa [hb, ReactorBuf.length] using hs.length_eq
        rw [(hs.block b hb).1, hn, examine_eq_find, ← take_load mem 0 hlt.le, hmem]
        refine find_strictPrefix hm (t := (frame m).drop n) ?_ (List.take_append_drop _ _)
        rw [Ne, List.drop_eq_nil_iff]
        omega
      · rw [Nat.div_eq_of_lt hlt, List.replicate_zero, List.append_nil]
      · rw [Nat.div_eq_of_lt hlt, Nat.zero_mul, List.drop_zero]
    · obtain ⟨k, rfl⟩ : ∃ k, n = (frame m).length + k :=
        Nat.exists_eq_add_of_le (Nat.le_of_not_lt hlt)
      obtain ⟨b, hb⟩ := ReactorBuf.exists_eq_some_of_length_pos
        (hs.length_eq.symm ▸ Nat.add_pos_left hpos k)
      rw [hb] at hs
      have hn : b.length = (frame m).length + k := hs.length_eq
      have hx : examine b.data 0 b.length = .message (frame m).length m := by
        rw [(hs.block b rfl).1, hn, examine_eq_find, load_add, hmem]
        exact find_frame hm _
      have hdiv : ((frame m).length + k) / (frame m).length = k / (frame m).length + 1 :=
        Nat.add_div_left k hpos
      rcases Endpoint.parseBody_message (K := kind) (handleClose ctl) (fun _ => 0) hb hx
        (by omega) with hp | ⟨s₁, hp, hd, hc, hr, -⟩
      · exact Or.inl (hp.imp (loop_error _) (loop_error _))
      · rw [if_pos hreg] at hd
        have hs₁ := hs.pop hr hc
        rw [Nat.add_sub_cancel_left] at hs₁
        rw [loop_next _ hp]
        rcases ih k (by omega) hs₁ with he | ⟨s', he, hd', hc', hcap⟩
        · exact Or.inl he
        · refine Or.inr ⟨s', he, ?_, ?_, hcap⟩
          · rw [hd', hd, hdiv, List.replicate_succ, List.append_assoc, List.singleton_append]
          · rw [hc', hc, hb, hdiv, List.drop_drop, Nat.succ_mul, Nat.add_comm]
            rfl

/-! ## A call for a chunk -/

section Chunk

variable {ctl : Bool} {ms : List Dispatch} {c : TcpConn} {p : List UInt8} {ev : ReadEvent}

/-- The call for a chunk comes down to the parse loop over the bytes held and the chunk. -/
theorem onChunk_eq (hc : c.Holds p) (hev : Endpoint.Served (handleRead ctl) ms c ev) :
    ∃ b q, b.Front ∧ b.contents = p ++ ev.chunk ∧
      Endpoint.onChunk (handleRead ctl) c ev =
        (Machine.loop (Endpoint.parseBody kind (handleClose ctl) ev.handlers fun _ => 0)
          (Endpoint.parseBody_decreases (handleClose ctl) ev.handlers _)
          ⟨{ c with ibuf := some b, pool := q }, []⟩ >>= fun s =>
            .ok (s.dispatched, { s.conn with ibuf := ReactorBuf.adjust s.conn.ibuf })) := by
  obtain ⟨b, q, hb, hcont, heq⟩ := Endpoint.onChunk_eq (K := kind) (handleClose ctl)
    (fun entry _ => ReactorBuf.data entry) hc hev rfl
  have hoff : ReactorBuf.data (some b) = 0 := hb.head_eq
  rw [hoff] at heq
  exact ⟨b, q, hb, hcont, heq⟩

/-- A chunk after which a frame is at the front of the buffer. -/
theorem onChunk_frame (hc : c.Holds p) (hev : Endpoint.Served (handleRead ctl) ms c ev)
    {m : Dispatch} (hm : m ∈ ms) (hfit : m.Fits) {rest : List UInt8}
    (happ : p ++ ev.chunk = frame m ++ rest) :
    ∃ c', Endpoint.onChunk (handleRead ctl) c ev =
        .ok (List.replicate ((frame m ++ rest).length / (frame m).length) m, c') ∧
      c'.Holds ((frame m ++ rest).drop
        ((frame m ++ rest).length / (frame m).length * (frame m).length)) := by
  obtain ⟨b, q, hb, hcont, heq⟩ := onChunk_eq hc hev
  rw [happ] at hcont
  have hload : load b.data 0 b.length = frame m ++ rest := by
    rw [← hcont, IoBuf.contents, hb.head_eq]
  have hlen : b.length = (frame m ++ rest).length := by rw [← hcont, IoBuf.length_contents]
  have hmem : load b.data 0 (frame m).length = frame m := by
    have hle : (frame m).length ≤ b.length := by
      rw [hlen, List.length_append]
      exact Nat.le_add_right _ _
    rw [← take_load b.data 0 hle, hload, List.take_left]
  have hleft : Left b.data (frame m ++ rest).length (some b) :=
    ⟨hlen, fun b' hb' => Option.some.inj hb' ▸ ⟨rfl, hb.length_le⟩⟩
  rcases parse_stale hfit (hev.registered m hm) hmem
    (s := ⟨{ c with ibuf := some b, pool := q }, []⟩) hleft with he | ⟨s', he, hd, hrest, hcap⟩
  · exact absurd (heq ▸ he.bind _) hev.alive
  · refine ⟨_, by rw [heq, he, ok_bind, hd, List.nil_append], ReactorBuf.front_adjust hcap, ?_⟩
    rw [ReactorBuf.contents_adjust, hrest]
    exact congrArg (List.drop _) hcont

/-- A chunk that completes nothing. -/
theorem onChunk_wait (hc : c.Holds p) (hev : Endpoint.Served (handleRead ctl) ms c ev)
    (hw : find (p ++ ev.chunk) = .wait) :
    ∃ c', Endpoint.onChunk (handleRead ctl) c ev = .ok ([], c') ∧ c'.Holds (p ++ ev.chunk) := by
  obtain ⟨b, q, hb, hcont, heq⟩ := onChunk_eq hc hev
  rw [loop_leave _ (Endpoint.parseBody_wait _ _ fun b' hb' => ?_), ok_bind] at heq
  · refine ⟨_, heq, ⟨ReactorBuf.front_adjust (r := some b) fun b' hb' => ?_, ?_⟩⟩
    · exact Option.some.inj hb' ▸ hb.length_le
    · rw [ReactorBuf.contents_adjust, ← hcont]
      rfl
  · obtain rfl : b = b' := Option.some.inj hb'
    have hload : load b.data 0 b.length = p ++ ev.chunk := by
      rw [← hcont, IoBuf.contents, hb.head_eq]
    rw [examine_eq_find, hload, hw]

variable {new : List Dispatch} {p' : List UInt8}

theorem length_stream {m : Dispatch} (hnew : ∀ m' ∈ new, m' = m) :
    (stream frame new).length = new.length * (frame m).length := by
  rw [List.eq_replicate_iff.mpr ⟨rfl, hnew⟩]
  simp [stream, List.length_flatMap]

/-- What the loop gets out of messages that are all equal, with less than a frame behind them. -/
theorem length_stream_div {m : Dispatch} (hnew : ∀ m' ∈ new, m' = m)
    (hp : p'.length < (frame m).length) :
    (stream frame new ++ p').length / (frame m).length = new.length := by
  rw [List.length_append, length_stream hnew, Nat.mul_comm, Nat.mul_add_div (Nat.zero_lt_of_lt hp),
    Nat.div_eq_of_lt hp, Nat.add_zero]

/-- A chunk that the loop gets right. -/
theorem onChunk_repeats (hc : c.Holds p) (hev : Endpoint.Served (handleRead ctl) ms c ev)
    (hfits : ∀ m ∈ ms, m.Fits) (hnew : new ⊆ ms) (hp' : Partial frame ms p')
    (happ : p ++ ev.chunk = stream frame new ++ p') (hrep : Repeats new p') :
    ∃ c', Endpoint.onChunk (handleRead ctl) c ev = .ok (new, c') ∧ c'.Holds p' := by
  cases new with
  | nil =>
    rw [stream_nil, List.nil_append] at happ
    obtain ⟨c', hcall, hc'⟩ := onChunk_wait hc hev (happ ▸ find_partial hfits hp')
    exact ⟨c', hcall, happ ▸ hc'⟩
  | cons m new =>
    have hm : m ∈ ms := hnew List.mem_cons_self
    have hrep' := hrep m List.mem_cons_self
    have hlen := (hrep' m List.mem_cons_self).2
    rw [stream_cons, List.append_assoc] at happ
    have hall : ∀ m' ∈ m :: new, m' = m := fun m' hm' => (hrep' m' hm').1
    have hdiv := length_stream_div hall hlen
    rw [stream_cons, List.append_assoc] at hdiv
    obtain ⟨c', hcall, hc'⟩ := onChunk_frame hc hev hm (hfits m hm) happ
    rw [hdiv, ← List.eq_replicate_iff.mpr ⟨rfl, hall⟩] at hcall
    refine ⟨c', hcall, ?_⟩
    rwa [hdiv, ← length_stream hall, ← List.append_assoc, ← stream_cons, List.drop_left] at hc'

/-- A chunk that the loop gets wrong. -/
theorem onChunk_not_repeats (hc : c.Holds p) (hev : Endpoint.Served (handleRead ctl) ms c ev)
    (hfits : ∀ m ∈ ms, m.Fits) (hnew : new ⊆ ms)
    (happ : p ++ ev.chunk = stream frame new ++ p') (hrep : ¬ Repeats new p') (c' : TcpConn) :
    Endpoint.onChunk (handleRead ctl) c ev ≠ .ok (new, c') := by
  intro hcall
  cases new with
  | nil => exact hrep fun m hm => absurd hm List.not_mem_nil
  | cons m new =>
    have hm : m ∈ ms := hnew List.mem_cons_self
    have happ' := happ
    rw [stream_cons, List.append_assoc] at happ'
    obtain ⟨c'', hcall', -⟩ := onChunk_frame hc hev hm (hfits m hm) happ'
    rw [← List.append_assoc, ← stream_cons] at hcall'
    obtain ⟨hall, -⟩ := Prod.mk.inj (Except.ok.inj (hcall.symm.trans hcall'))
    obtain ⟨hlen, hall⟩ := List.eq_replicate_iff.mp hall
    refine hrep fun m₁ h₁ m₂ h₂ => ?_
    rw [hall m₁ h₁, hall m₂ h₂]
    refine ⟨rfl, ?_⟩
    have hpos : 0 < (frame m).length := List.length_pos_iff.mpr (frame_ne_nil m)
    have hlt := Nat.lt_div_mul_add (a := (stream frame (m :: new) ++ p').length) hpos
    rw [← hlen, List.length_append, length_stream hall] at hlt
    omega

end Chunk

/-! ## Runs -/

/-- **The server's framing.** A connection fed the stream of the messages in chunks calls the
handlers for each message once, in order, in the call whose chunk completes it, and ends with an
empty input buffer, if and only if every chunk completes equal messages only and leaves less than
another frame of theirs. -/
theorem handleRead_delivers_iff {ctl : Bool} {ms : List Dispatch} (hfits : ∀ m ∈ ms, m.Fits)
    {c : TcpConn} (hc : c.ibuf = none) {es : List ReadEvent}
    (hes : (es.map ReadEvent.chunk).flatten = stream frame ms)
    (hok : Along (Endpoint.onChunk (handleRead ctl)) (Endpoint.Served (handleRead ctl) ms) c es) :
    (∃ c', run (Endpoint.onChunk (handleRead ctl)) c es =
        .ok (deliveries frame ms 0 (es.map ReadEvent.chunk), c') ∧
      ReactorBuf.length c'.ibuf = 0) ↔
    EachChunk frame Repeats ms 0 (es.map ReadEvent.chunk) := by
  have hstart : c.Holds (unfinished frame ms 0) := by
    rw [unfinished_zero]
    exact ⟨hc ▸ ReactorBuf.front_none, hc ▸ rfl⟩
  have hdrop : (stream frame ms).drop 0 = (es.map ReadEvent.chunk).flatten ++ [] := by
    rw [List.drop_zero, List.append_nil, hes]
  have hgood : ∀ (c : TcpConn) (ev : ReadEvent) (p : List UInt8) (new : List Dispatch)
      (p' : List UInt8), c.Holds p → Endpoint.Served (handleRead ctl) ms c ev → new ⊆ ms →
      Partial frame ms p' → p ++ ev.chunk = stream frame new ++ p' → Repeats new p' →
      ∃ c', Endpoint.onChunk (handleRead ctl) c ev = .ok (new, c') ∧ c'.Holds p' :=
    fun _ _ _ _ _ h₁ h₂ h₃ h₄ h₅ h₆ => onChunk_repeats h₁ h₂ hfits h₃ h₄ h₅ h₆
  constructor
  · rintro ⟨c', hrun, -⟩
    exact eachChunk_of_run hgood
      (fun _ _ _ _ _ h₁ h₂ h₃ _ h₅ h₆ => onChunk_not_repeats h₁ h₂ hfits h₃ h₅ h₆)
      hdrop hstart hok hrun
  · intro hrep
    obtain ⟨c', hrun, hc'⟩ := receiver_run hgood hdrop hstart hok hrep
    rw [hes, Nat.zero_add, unfinished_stream_length] at hc'
    exact ⟨c', hrun, by rw [← ReactorBuf.length_contents, hc'.contents_eq, List.length_nil]⟩

/-- The first two messages of a dialogue, in chunks that each complete one of them. -/
theorem handleRead_delivers_separate :
    ∃ c', run (Endpoint.onChunk (handleRead true))
        (new 1 5 {} (fun _ => none) (.ofCounts fun _ => 2))
        [.plain (frame ⟨2, [98]⟩ ++ (frame ⟨1, [104, 105]⟩).take 3) (by decide),
          .plain ((frame ⟨1, [104, 105]⟩).drop 3) (by decide)] =
        .ok (deliveries frame [⟨2, [98]⟩, ⟨1, [104, 105]⟩] 0
          [frame ⟨2, [98]⟩ ++ (frame ⟨1, [104, 105]⟩).take 3, (frame ⟨1, [104, 105]⟩).drop 3], c') ∧
      ReactorBuf.length c'.ibuf = 0 :=
  (handleRead_delivers_iff (by decide) rfl (by decide)
    (along_cons (.of_eval (fun _ _ => rfl) (by decide) (by decide))
      (along_cons (.of_eval (fun _ _ => rfl) (by decide) (by decide)) (along_nil _ _)))).mpr
    (by decide)

/-- Two messages in one chunk: the second is not delivered, the first is delivered twice. -/
theorem handleRead_not_delivers : ∃ (ms : List Dispatch) (c : TcpConn) (es : List ReadEvent),
    (∀ m ∈ ms, m.Fits) ∧ c.ibuf = none ∧ (es.map ReadEvent.chunk).flatten = stream frame ms ∧
      Along (Endpoint.onChunk (handleRead true)) (Endpoint.Served (handleRead true) ms) c es ∧
      ¬ ∃ c', run (Endpoint.onChunk (handleRead true)) c es =
          .ok (deliveries frame ms 0 (es.map ReadEvent.chunk), c') ∧
        ReactorBuf.length c'.ibuf = 0 := by
  refine ⟨[⟨2, [98]⟩, ⟨1, [104, 105]⟩], new 1 5 {} (fun _ => none) (.ofCounts fun _ => 2),
    [.plain (frame ⟨2, [98]⟩ ++ frame ⟨1, [104, 105]⟩) (by decide)], by decide, rfl, by decide,
    along_cons (.of_eval (fun _ _ => rfl) (by decide) (by decide)) (along_nil _ _), ?_⟩
  rintro ⟨c', hrun, -⟩
  exact absurd (output_of_eq_ok hrun) (by decide)

end TcpConn

end Lars.Reactor
