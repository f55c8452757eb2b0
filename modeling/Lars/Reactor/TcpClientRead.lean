import Lars.Reactor.TcpClient

/-!
# Reading on a client

`tcp_client::handle_read` takes the place of the header anew in every pass, so that each pass of its
loop finds the frame at the front of what is left in the buffer (`parse_frames`).

* `handleRead_delivers`: a stream of messages is delivered right, however it is cut into chunks.
-/

namespace Lars.Reactor

open Machine Memory Framing

namespace TcpClient

/-- The state of the parse loop when the bytes `p` are left in the input buffer. -/
structure Rest (p : List UInt8) (c : TcpClient) : Prop where
  contents_eq : ReactorBuf.contents c.ibuf = p
  length_le : ∀ b, c.ibuf = some b → b.length ≤ b.capacity
  connected : c.own.connected = true

/-- The frame at the front is popped. -/
theorem Rest.pop {m : Dispatch} {p : List UInt8} {c c' : TcpClient} {b : IoBuf}
    (h : Rest (frame m ++ p) c) (hb : c.ibuf = some b)
    (hr : c'.ibuf = none ∨ c'.ibuf = some (b.pop (frame m).length))
    (hc : ReactorBuf.contents c'.ibuf = b.contents.drop (frame m).length)
    (hown : c'.own = c.own) : Rest p c' := by
  have hcb : b.contents = frame m ++ p := by
    rw [← h.contents_eq, hb]
    rfl
  refine ⟨by rw [hc, hcb, List.drop_left], fun b' hb' => ?_, hown ▸ h.connected⟩
  obtain rfl : b' = b.pop (frame m).length := by
    rcases hr with hr | hr <;> rw [hr] at hb' <;> cases hb'
    rfl
  have hle : (b.pop (frame m).length).length ≤ b.length := Nat.sub_le _ _
  exact hle.trans (h.length_le b hb)

/-- **The parse loop on frames**: their messages are dispatched in order, and what is behind them is
left. -/
theorem parse_frames {env : ClientEnv} {h : Handlers} {ms : List Dispatch}
    (hfits : ∀ m ∈ ms, m.Fits) (hreg : ∀ m ∈ ms, h.registered m.id = true) {p : List UInt8}
    (hp : Partial frame ms p) :
    ∀ {new : List Dispatch} {s : Endpoint.Parsing ClientCallback ClientOwn}, new ⊆ ms →
      Rest (stream frame new ++ p) s.conn →
      ExitsOrOverreads
        (Machine.loop (Endpoint.parseBody kind (cleanConn env) h fun b => ReactorBuf.data (some b))
          (Endpoint.parseBody_decreases (cleanConn env) h _) s) ∨
      ∃ s', Machine.loop
          (Endpoint.parseBody kind (cleanConn env) h fun b => ReactorBuf.data (some b))
          (Endpoint.parseBody_decreases (cleanConn env) h _) s = .ok s' ∧
        s'.dispatched = s.dispatched ++ new ∧ Rest p s'.conn
  | [], s, _, hs => by
    refine Or.inr ⟨s, loop_leave _ (Endpoint.parseBody_wait _ _ fun b hb => ?_), ?_, hs⟩
    · have hc : ReactorBuf.contents s.conn.ibuf = p := hs.contents_eq
      rw [hb] at hc
      have hcb : b.contents = p := hc
      rw [ReactorBuf.examine_data, hcb, find_partial hfits hp]
    · rw [List.append_nil]
  | m :: new, s, hsub, hs => by
    have hm : m ∈ ms := hsub List.mem_cons_self
    rw [stream_cons, List.append_assoc] at hs
    have hc := hs.contents_eq
    have hpos : 0 < ReactorBuf.length s.conn.ibuf := by
      rw [← ReactorBuf.length_contents, hc, List.length_append]
      exact Nat.add_pos_left (List.length_pos_iff.mpr (frame_ne_nil m)) _
    obtain ⟨b, hb⟩ := ReactorBuf.exists_eq_some_of_length_pos hpos
    have hcb : b.contents = frame m ++ (stream frame new ++ p) := by
      rw [← hc, hb]
      rfl
    have hx : examine b.data (ReactorBuf.data (some b)) b.length =
        .message (frame m).length m := by
      rw [ReactorBuf.examine_data, hcb]
      exact find_frame (hfits m hm) _
    have hlen : (frame m).length ≤ b.length := by
      rw [← IoBuf.length_contents, hcb, List.length_append]
      exact Nat.le_add_right _ _
    rcases Endpoint.parseBody_message (K := kind) (cleanConn env)
      (fun b => ReactorBuf.data (some b)) hb hx hlen with
      he | ⟨s₁, he, hd, hc₁, hr, hown⟩
    · exact Or.inl (he.imp (loop_error _) (loop_error _))
    · rw [if_pos (hreg m hm)] at hd
      have hs₁ : Rest (stream frame new ++ p) s₁.conn := hs.pop hb hr hc₁ hown
      rw [loop_next _ he]
      have hsub' : new ⊆ ms := fun x hx => hsub (List.mem_cons_of_mem _ hx)
      rcases parse_frames hfits hreg hp hsub' hs₁ with he' | ⟨s', he', hd', hs'⟩
      · exact Or.inl he'
      · exact Or.inr ⟨s', he', by rw [hd', hd, List.append_assoc, List.singleton_append], hs'⟩

/-- A call of `handle_read` for a chunk dispatches the messages it completes and keeps the rest. -/
theorem onChunk_frames {env : ClientEnv} {ms : List Dispatch} (hfits : ∀ m ∈ ms, m.Fits)
    {c : TcpClient} (hconn : c.own.connected = true) {p : List UInt8} (hc : c.Holds p)
    {ev : ReadEvent} (hev : Endpoint.Served (handleRead env true) ms c ev) {new : List Dispatch}
    (hnew : new ⊆ ms) {p' : List UInt8} (hp' : Partial frame ms p')
    (happ : p ++ ev.chunk = stream frame new ++ p') :
    ∃ c', Endpoint.onChunk (handleRead env true) c ev = .ok (new, c') ∧
      c'.own.connected = true ∧ c'.Holds p' := by
  obtain ⟨b, q, hb, hcont, heq⟩ := Endpoint.onChunk_eq (K := kind) (cleanConn env)
    (fun _ b => ReactorBuf.data (some b)) hc hev (by simp [handleRead, hconn])
  have hrest : Rest (stream frame new ++ p') { c with ibuf := some b, pool := q } :=
    ⟨hcont.trans happ, fun b' hb' => Option.some.inj hb' ▸ hb.length_le, hconn⟩
  rcases parse_frames hfits hev.registered hp' hnew
    (s := ⟨{ c with ibuf := some b, pool := q }, []⟩) hrest with he | ⟨s', he, hd, hs'⟩
  · exact absurd (heq ▸ he.bind _) hev.alive
  · refine ⟨{ s'.conn with ibuf := ReactorBuf.adjust s'.conn.ibuf },
      by rw [heq, he, ok_bind, hd, List.nil_append], hs'.connected,
      ReactorBuf.front_adjust hs'.length_le, ?_⟩
    rw [ReactorBuf.contents_adjust, hs'.contents_eq]

/-- **The client's framing.** A connected client fed the chunks `es` of the stream of the messages
calls the handlers for each message once, in order, in the call whose chunk completes it. It is left
with the bytes received of the unfinished frame, at the start of its buffer; after all chunks with
none, every message delivered. -/
theorem handleRead_delivers {env : ClientEnv} {ms : List Dispatch} (hfits : ∀ m ∈ ms, m.Fits)
    {c : TcpClient} (hconn : c.own.connected = true) (hc : c.ibuf = none)
    {es later : List ReadEvent}
    (hes : ((es ++ later).map ReadEvent.chunk).flatten = stream frame ms)
    (hok : Along (Endpoint.onChunk (handleRead env true))
      (Endpoint.Served (handleRead env true) ms) c es) :
    ∃ c', run (Endpoint.onChunk (handleRead env true)) c es =
        .ok (deliveries frame ms 0 (es.map ReadEvent.chunk), c') ∧
      ReactorBuf.contents c'.ibuf =
        unfinished frame ms (es.map ReadEvent.chunk).flatten.length ∧
      (∀ b, c'.ibuf = some b → b.head = 0) ∧
      (later = [] → (deliveries frame ms 0 (es.map ReadEvent.chunk)).flatten = ms ∧
        ReactorBuf.length c'.ibuf = 0) := by
  have hstart : c.own.connected = true ∧ c.Holds (unfinished frame ms 0) := by
    rw [unfinished_zero]
    exact ⟨hconn, hc ▸ ReactorBuf.front_none, hc ▸ rfl⟩
  have hdrop : (stream frame ms).drop 0 =
      (es.map ReadEvent.chunk).flatten ++ (later.map ReadEvent.chunk).flatten := by
    rw [List.drop_zero, ← hes, List.map_append, List.flatten_append]
  have hstep : ∀ (c : TcpClient) (ev : ReadEvent) (p : List UInt8) (new : List Dispatch)
      (p' : List UInt8), c.own.connected = true ∧ c.Holds p →
      Endpoint.Served (handleRead env true) ms c ev → new ⊆ ms → Partial frame ms p' →
      p ++ ev.chunk = stream frame new ++ p' → True →
      ∃ c', Endpoint.onChunk (handleRead env true) c ev = .ok (new, c') ∧
        c'.own.connected = true ∧ c'.Holds p' :=
    fun _ _ _ _ _ h₁ h₂ h₃ h₄ h₅ _ => onChunk_frames hfits h₁.1 h₁.2 h₂ h₃ h₄ h₅
  obtain ⟨c', hrun, -, hc'⟩ := receiver_run hstep hdrop hstart hok (eachChunk_true ms _ 0)
  rw [Nat.zero_add] at hc'
  refine ⟨c', hrun, hc'.contents_eq, fun b hb => (hc'.front b hb).head_eq, fun hlater => ?_⟩
  have hall : (es.map ReadEvent.chunk).flatten = stream frame ms := by
    rw [← hes, hlater, List.append_nil]
  refine ⟨flatten_deliveries_stream frame_ne_nil ms hall, ?_⟩
  rw [← ReactorBuf.length_contents, hc'.contents_eq, hall, unfinished_stream_length,
    List.length_nil]

/-- Two messages, cut inside the header of the second. -/
theorem handleRead_delivers_cut :
    ∃ c', run (Endpoint.onChunk (handleRead ⟨true, .pending, [], []⟩ true))
        { new 1 5 {} (.ofCounts fun _ => 2) with own := ⟨1, true⟩ }
        [.plain (frame ⟨2, [98]⟩ ++ (frame ⟨1, [104, 105]⟩).take 3) (by decide),
          .plain ((frame ⟨1, [104, 105]⟩).drop 3) (by decide)] =
        .ok (deliveries frame [⟨2, [98]⟩, ⟨1, [104, 105]⟩] 0
          [frame ⟨2, [98]⟩ ++ (frame ⟨1, [104, 105]⟩).take 3, (frame ⟨1, [104, 105]⟩).drop 3], c') ∧
      ReactorBuf.length c'.ibuf = 0 := by
  obtain ⟨c', hrun, -, -, hend⟩ := @handleRead_delivers ⟨true, .pending, [], []⟩
    [⟨2, [98]⟩, ⟨1, [104, 105]⟩] (by decide)
    { new 1 5 {} (.ofCounts fun _ => 2) with own := ⟨1, true⟩ } rfl rfl
    [.plain (frame ⟨2, [98]⟩ ++ (frame ⟨1, [104, 105]⟩).take 3) (by decide),
      .plain ((frame ⟨1, [104, 105]⟩).drop 3) (by decide)] [] (by decide)
    (along_cons (.of_eval (fun _ _ => rfl) (by decide) (by decide))
      (along_cons (.of_eval (fun _ _ => rfl) (by decide) (by decide)) (along_nil _ _)))
  exact ⟨c', hrun, (hend rfl).2⟩

end TcpClient

end Lars.Reactor
