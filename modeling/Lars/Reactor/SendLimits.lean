import Lars.Reactor.FailedSend

/-!
# What one end sends and the other accepts

`tcp_conn::send` and `tcp_client::send` take any body that there is a buffer for, up to megabytes.
`tcp_client::handle_read` and `tcp_conn::handle_read` close the connection on a message that is
longer than `MESSAGE_MAX_SIZE`, which `send` does not look at.

* `sent_accepted_iff`: a message that was sent is accepted if and only if its body fits
  `MESSAGE_MAX_SIZE` behind the header.
-/

namespace Lars.Reactor

open Machine

/-! ## Long messages -/

/-- The length in a header, as long as it is an `int`. -/
theorem toInt_len_header_of_lt {m : Dispatch} (h : (frame m).length < 2147483648) :
    (header m.id m.body).len.toInt = (frame m).length := by
  rw [length_frame] at h ⊢
  simp only [messageHeaderSize] at h
  rw [header, Int32.toInt_ofInt_of_le] <;>
    simp only [messageHeaderSize] <;> push_cast <;> omega

/-- A frame that is longer than `MESSAGE_MAX_SIZE` is found bad. -/
theorem find_frame_long {m : Dispatch} (h : ¬ m.Fits) (hint : (frame m).length < 2147483648)
    (rest : List UInt8) : find (frame m ++ rest) = .bad := by
  have hlen := toInt_len_header_of_lt hint
  have hlong : messageMaxSize < (frame m).length := by
    rw [length_frame]
    simp only [Dispatch.Fits, messageMaxSize, messageHeaderSize] at *
    omega
  have hhead : ¬ (frame m ++ rest).length < messageHeaderSize := by
    rw [List.length_append, length_frame]
    omega
  unfold find
  dsimp only
  rw [if_neg hhead, ofBytes_take_frame, hlen, if_pos (Or.inl (by exact_mod_cast hlong))]

namespace ReactorBuf

/-- A body that `send` has got into a buffer is no longer than the largest buffer. -/
theorem length_le_of_sendFrame {r r' : Option IoBuf} {id : Int32} {body : List UInt8}
    {p p' : BufPool} {n : ℤ} (h : sendFrame r id body p = .ok (n, r', p')) (hn : ¬ n < 0) :
    body.length ≤ MemCap.m8M.size := by
  cases sendsFrame h with
  | headerRefused => exact absurd (by decide) hn
  | bodyRefused => exact absurd (by decide) hn
  | @appended _ _ b _ _ _ _ _ h₂ hn₂ =>
    obtain ⟨b₂, p₃, hgrow, -⟩ := writeData_some h₂ hn₂
    have hcap : b.capacity ≤ MemCap.m8M.size := MemCap.size_le b.cap
    rcases grow_same_or_moved hgrow with ⟨hroom, -⟩ | ⟨-, -, hroom, -⟩
    · omega
    · omega

end ReactorBuf

/-! ## A pass on a message that was sent -/

namespace Endpoint

variable {κ ω : Type} {K : Kind κ ω}

/-- With the frame of the message at the front of the input buffer and anything behind it, a pass of
the parse loop that has just started calls the message's handler and goes on, unless the process
exits in the handler. `data` is as in `handleRead`. -/
def Accepts (K : Kind κ ω) (close : Endpoint κ ω → Except Halt (Endpoint κ ω))
    (data : Option IoBuf → IoBuf → ℕ) (m : Dispatch) : Prop :=
  ∀ (h : Handlers) (s : Parsing κ ω) (b : IoBuf) (rest : List UInt8) (conn : Endpoint κ ω),
    s.conn.ibuf = some b → b.contents = frame m ++ rest → h.registered m.id = true →
    runScript K (h.script (s.dispatched ++ [m])) s.conn = .ok conn →
    ∃ s', parseBody K close h (data (some b)) s = .ok (.next s') ∧
      s'.dispatched = s.dispatched ++ [m]

/-- A message of which `send` has appended the frame is no longer than the largest buffer. -/
theorem length_le_of_send {e e' : Endpoint κ ω} {id : Int32} {body : List UInt8} {ctl : Bool}
    (h : send K id body ctl e = .ok (0, e')) : body.length ≤ MemCap.m8M.size := by
  cases sends h with
  | first _ hsend hn => exact ReactorBuf.length_le_of_sendFrame hsend hn
  | behind _ hsend hn => exact ReactorBuf.length_le_of_sendFrame hsend hn

variable {close : Endpoint κ ω → Except Halt (Endpoint κ ω)} {data : Option IoBuf → IoBuf → ℕ}

theorem accepts_of_fits (hdata : ∀ b, data (some b) b = ReactorBuf.data (some b)) {m : Dispatch}
    (hm : m.Fits) : Accepts K close data m := by
  intro h s b rest conn hb hcont hreg hrun
  have hx : examine b.data (data (some b) b) b.length = .message (frame m).length m := by
    rw [hdata, ReactorBuf.examine_data, hcont, find_frame hm]
  have hlen : (frame m).length ≤ b.length := by
    have := congrArg List.length hcont
    rw [IoBuf.length_contents, List.length_append] at this
    omega
  have hcall : callHandler K h m s = .ok ⟨conn, s.dispatched ++ [m]⟩ := by
    unfold callHandler
    rw [if_pos hreg]
    dsimp only
    rw [hrun]
    rfl
  have hibuf : conn.ibuf = some b := (runScript_untouched hrun).ibuf_eq.trans hb
  obtain ⟨r, p, hpop, -⟩ := ReactorBuf.pop_eq hlen conn.pool
  refine ⟨⟨{ conn with ibuf := r, pool := p }, s.dispatched ++ [m]⟩, ?_, rfl⟩
  unfold parseBody
  simp only [hb, hx, hcall, ok_bind, hibuf, hpop]

/-- The pass on a message that is too long closes. -/
theorem not_accepts_of_not_fits (hdata : ∀ b, data (some b) b = ReactorBuf.data (some b))
    {m : Dispatch} (hm : ¬ m.Fits) (hint : (frame m).length < 2147483648) (e : Endpoint κ ω) :
    ¬ Accepts K close data m := by
  intro hacc
  obtain ⟨b, hb⟩ : ∃ b : IoBuf, b.contents = frame m :=
    ⟨⟨Memory.store (fun _ => 0) 0 (frame m), .m8M, (frame m).length, 0⟩,
      Memory.load_store_self _ 0 (frame m)⟩
  have hx : examine b.data (data (some b) b) b.length = .bad := by
    have hbad := find_frame_long hm hint []
    rw [List.append_nil] at hbad
    rw [hdata, ReactorBuf.examine_data, hb, hbad]
  obtain ⟨s', hpass, -⟩ := hacc ⟨fun _ => true, fun _ => []⟩ ⟨{ e with ibuf := some b }, []⟩ b []
    { e with ibuf := some b } rfl (by rw [hb, List.append_nil]) rfl rfl
  obtain ⟨b', len, m', hb', hx', -⟩ := parseBody_next hpass
  cases hb'
  cases hx.symm.trans hx'

/-- A message that was sent is accepted if and only if it fits. -/
theorem accepts_iff (hdata : ∀ b, data (some b) b = ReactorBuf.data (some b)) {m : Dispatch}
    (hlen : m.body.length ≤ MemCap.m8M.size) (e : Endpoint κ ω) :
    Accepts K close data m ↔ m.Fits := by
  constructor
  · intro hacc
    by_contra hm
    have hint : (frame m).length < 2147483648 := by
      rw [length_frame]
      simp only [MemCap.size, messageHeaderSize] at *
      omega
    exact not_accepts_of_not_fits hdata hm hint e hacc
  · exact accepts_of_fits hdata

end Endpoint

/-! ## The two classes -/

/-- `tcp_conn::handle_read` accepts the message. -/
def TcpConn.Accepts (ctl : Bool) (m : Dispatch) : Prop :=
  Endpoint.Accepts kind (handleClose ctl) (fun entry _ => ReactorBuf.data entry) m

/-- `tcp_client::handle_read` accepts the message. -/
def TcpClient.Accepts (env : ClientEnv) (m : Dispatch) : Prop :=
  Endpoint.Accepts kind (cleanConn env) (fun _ b => ReactorBuf.data (some b)) m

/-- **Sent and accepted**: of the messages for which `send` of one class returns 0, the other class
accepts exactly those with a body of at most `MESSAGE_MAX_SIZE - MESSAGE_HEADER_SIZE` bytes. -/
theorem sent_accepted_iff (id : Int32) (body : List UInt8) (ctl : Bool) :
    (∀ c c' : TcpConn, TcpConn.send id body ctl c = .ok (0, c') → ∀ env : ClientEnv,
      (TcpClient.Accepts env ⟨id, body⟩ ↔ body.length ≤ messageMaxSize - messageHeaderSize)) ∧
    ∀ c c' : TcpClient, TcpClient.send id body ctl c = .ok (0, c') → ∀ ctl' : Bool,
      (TcpConn.Accepts ctl' ⟨id, body⟩ ↔ body.length ≤ messageMaxSize - messageHeaderSize) := by
  refine ⟨fun c c' hsend env => ?_, fun c c' hsend ctl' => ?_⟩
  · have hlen := Endpoint.length_le_of_send hsend
    exact Endpoint.accepts_iff (fun _ => rfl) hlen (TcpClient.new 0 0 {} (.ofCounts fun _ => 0))
  · have hlen := Endpoint.length_le_of_send hsend
    exact Endpoint.accepts_iff (fun _ => rfl) hlen
      (TcpConn.new 0 0 {} (fun _ => none) (.ofCounts fun _ => 0))

/-- A message of two bytes, both ways. -/
theorem sent_accepted_short :
    (∃ c', TcpConn.send 1 [104, 105] true (.new 1 5 {} (fun _ => none) (.ofCounts fun _ => 2)) =
        .ok (0, c') ∧ ∀ env, TcpClient.Accepts env ⟨1, [104, 105]⟩) ∧
    ∃ c', TcpClient.send 1 [104, 105] true
        ⟨5, none, none, {}, .ofCounts fun _ => 2, ⟨1, true⟩⟩ = .ok (0, c') ∧
      ∀ ctl, TcpConn.Accepts ctl ⟨1, [104, 105]⟩ := by
  have hsent := sent_accepted_iff 1 [104, 105] true
  constructor
  · have hsend : TcpConn.send 1 [104, 105] true
        (.new 1 5 {} (fun _ => none) (.ofCounts fun _ => 2)) = .ok (0, _) := rfl
    exact ⟨_, hsend, fun env => (hsent.1 _ _ hsend env).mpr (by decide)⟩
  · have hsend : TcpClient.send 1 [104, 105] true
        ⟨5, none, none, {}, .ofCounts fun _ => 2, ⟨1, true⟩⟩ = .ok (0, _) := rfl
    exact ⟨_, hsend, fun ctl => (hsent.2 _ _ hsend ctl).mpr (by decide)⟩

/-- A fresh connection sends a body of 65520 bytes. -/
theorem send_long {body : List UInt8} (hbody : body.length = 65520) :
    ∃ c', TcpConn.send 1 body true (.new 1 5 {} (fun _ => none) (.ofCounts fun _ => 2)) =
      .ok (0, c') := by
  obtain ⟨b, p, hsend, -⟩ := ReactorBuf.sendFrame_moved 1 body (c := .m256K)
    (by rw [hbody]; decide) (by decide) (by rw [hbody]; rfl)
  unfold TcpConn.send Endpoint.send TcpConn.new
  dsimp only
  rw [hsend]
  exact ⟨_, rfl⟩

/-- A body of 65520 bytes is sent, and the client closes the connection. -/
theorem not_sent_accepted :
    ¬ ∀ (id : Int32) (body : List UInt8) (ctl : Bool) (c c' : TcpConn),
      TcpConn.send id body ctl c = .ok (0, c') → ∀ env, TcpClient.Accepts env ⟨id, body⟩ := by
  intro hall
  obtain ⟨body, hbody⟩ : ∃ body : List UInt8, body.length = 65520 :=
    ⟨List.replicate 65520 0, List.length_replicate ..⟩
  obtain ⟨c', hsend⟩ := send_long hbody
  have hlen := Endpoint.length_le_of_send hsend
  have hfits := (Endpoint.accepts_iff (fun _ => rfl) hlen
    (TcpClient.new 0 0 {} (.ofCounts fun _ => 0))).mp (hall 1 body true _ c' hsend
      ⟨true, .pending, [], []⟩)
  simp only [Dispatch.Fits, hbody] at hfits
  exact absurd hfits (by decide)

end Lars.Reactor
