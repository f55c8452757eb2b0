import Lars.Foundations.Run
import Lars.Reactor.BufPool
import Lars.Reactor.HandlerMap
import Lars.Reactor.Message

/-!
# Datagrams

`udp_server` and `udp_client` (`lars_reactor/src/udp_server.cc`, `udp_client.cc`) have the same
`do_read` and the same `send`, and differ in how they come by the address they send to. A datagram
is a header and a body. It is received into `m_read_buf`, which is not cleared between datagrams,
and put together in `m_write_buf`; both have 1024 bytes.

* A datagram of a header's length or more that fits the buffer is dispatched on its own terms. The
  header of a shorter one is made up with bytes of the datagrams before it, and what is beyond the
  buffer's end of a longer one is lost, and nobody looks at the length before the header. So
  dispatch depends on the datagrams themselves if and only if no such datagram gets a header that
  passes the test (`dispatch_due_iff`).
* What `send` does not refuse it can send, and the other side dispatches, if and only if it fits the
  buffers (`send_agrees_iff`).
-/

namespace Lars.Reactor

open Machine Memory

/-- `sizeof(m_read_buf)` and `sizeof(m_write_buf)`. -/
def udpBufSize : ℕ := 1024

/-- The memory from the start of a buffer on. -/
abbrev UdpBuf := ℕ → UInt8

/-- `udp_server` and `udp_client`; `addr` is `m_client_addr` and `m_server_addr`. -/
structure UdpEndpoint (α : Type) where
  readBuf : UdpBuf
  writeBuf : UdpBuf
  addr : α

/-- The answer of `recvfrom`. -/
inductive RecvAnswer (α : Type)
  /-- A datagram of any length, and where it comes from. -/
  | datagram (src : α) (d : List UInt8)
  /-- `-1` with `EINTR`. -/
  | interrupted
  /-- `-1` with `EAGAIN`. -/
  | wouldBlock
  /-- `-1` with another error. -/
  | failed

/-- A call of a handler, with the length it is given and that many bytes from
`m_read_buf + MESSAGE_HEADER_SIZE` on. -/
structure UdpCall (η : Type) where
  handler : η
  msgid : Int32
  len : ℤ
  body : List UInt8

/-- `memcpy` to the offset `off` of an array of `size` bytes. -/
def memcpyTo (size : ℕ) (m : UdpBuf) (off : ℕ) (l : List UInt8) : Except Halt UdpBuf :=
  if off + l.length ≤ size then .ok (store m off l) else .error .undefined

namespace UdpEndpoint

variable {α η : Type}

/-- The constructors clear both buffers. -/
def new (addr : α) : UdpEndpoint α := ⟨fun _ => 0, fun _ => 0, addr⟩

/-- `m_read_buf` once `recvfrom` has put a datagram into it. -/
def receive (d : List UInt8) (buf : UdpBuf) : UdpBuf := store buf 0 (d.take udpBufSize)

/-- What `do_read` does with `pkgLen` bytes that have been received. -/
def dispatch (t : HandlerMap η) (pkgLen : ℕ) (buf : UdpBuf) : Option (UdpCall η) :=
  let head := headerAt buf 0
  if head.len.toInt > messageMaxSize ∨ head.len.toInt ≤ 0 ∨ head.len.toInt ≠ pkgLen then none
  else
    let len := (pkgLen : ℤ) - messageHeaderSize
    (t.getHandler head.id).map fun handler =>
      ⟨handler, head.id, len, load buf messageHeaderSize len.toNat⟩

/-- `do_read`: the datagrams received, each with the call of a handler made for it. Without further
answers it is still waiting. -/
def doRead (t : HandlerMap η) :
    List (RecvAnswer α) → UdpEndpoint α → List (List UInt8 × Option (UdpCall η)) × UdpEndpoint α
  | [], e => ([], e)
  | .interrupted :: answers, e => doRead t answers e
  | .wouldBlock :: _, e => ([], e)
  | .failed :: _, e => ([], e)
  | .datagram src d :: answers, e =>
    let e := { e with readBuf := receive d e.readBuf, addr := src }
    let call := dispatch t (d.take udpBufSize).length e.readBuf
    let (calls, e) := doRead t answers e
    ((d, call) :: calls, e)

/-- The test with which `send` starts. -/
def tooLarge (len : ℕ) : Prop := len > messageMaxSize - messageHeaderSize

instance (len : ℕ) : Decidable (tooLarge len) := inferInstanceAs (Decidable (_ > _))

/-- `send`: the value returned, and the datagram sent with its destination; `ok` says whether
`sendto` succeeds. -/
def send (msgid : Int32) (body : List UInt8) (ok : Bool) (e : UdpEndpoint α) :
    Except Halt ((ℤ × Option (α × List UInt8)) × UdpEndpoint α) :=
  if tooLarge body.length then .ok ((-1, none), e)
  else do
    let head := header msgid body
    let writeBuf ← memcpyTo udpBufSize e.writeBuf 0 head.bytes
    let writeBuf ← memcpyTo udpBufSize writeBuf messageHeaderSize body
    let e := { e with writeBuf := writeBuf }
    let d := load e.writeBuf 0 head.len.toInt.toNat
    if ok then .ok ((d.length, some (e.addr, d)), e) else .ok ((-1, none), e)

/-! ## What is due -/

/-- A datagram of a header's length at least that fits the read buffer and has its size in its own
header. -/
def Genuine (d : List UInt8) : Prop :=
  messageHeaderSize ≤ d.length ∧ d.length ≤ udpBufSize ∧
    (Message.ofBytes (d.take messageHeaderSize)).len.toInt = d.length

instance (d : List UInt8) : Decidable (Genuine d) := inferInstanceAs (Decidable (_ ∧ _))

/-- The call that is due for a datagram. -/
def due (t : HandlerMap η) (d : List UInt8) : Option (UdpCall η) :=
  if Genuine d then
    let msgid := (Message.ofBytes (d.take messageHeaderSize)).id
    (t.getHandler msgid).map fun handler =>
      ⟨handler, msgid, (d.length : ℤ) - messageHeaderSize, d.drop messageHeaderSize⟩
  else none

/-- The header that passes for a datagram's own, being made up of its bytes and, if they are too
few, of older bytes behind them, does not pass the test for a datagram that is shorter than a header
or longer than the buffer; or there is no handler for its id. -/
def OwnHeader (t : HandlerMap η) (buf : UdpBuf) (d : List UInt8) : Prop :=
  let head := headerAt (receive d buf) 0
  (d.length < messageHeaderSize → 0 < d.length → head.len.toInt = d.length →
    t.getHandler head.id = none) ∧
  (udpBufSize < d.length → head.len.toInt = udpBufSize → t.getHandler head.id = none)

/-- The same for all datagrams of a `do_read`. -/
def OwnHeaders (t : HandlerMap η) : UdpBuf → List (RecvAnswer α) → Prop
  | _, [] => True
  | buf, .interrupted :: answers => OwnHeaders t buf answers
  | _, .wouldBlock :: _ => True
  | _, .failed :: _ => True
  | buf, .datagram _ d :: answers =>
    OwnHeader t buf d ∧ OwnHeaders t (receive d buf) answers

/-! ## A datagram -/

theorem load_receive {d : List UInt8} (h : d.length ≤ udpBufSize) (buf : UdpBuf) :
    load (receive d buf) 0 d.length = d := by
  rw [receive, List.take_of_length_le h, load_store_self]

/-- The header of a datagram that has one. -/
theorem headerAt_receive {d : List UInt8} (h : messageHeaderSize ≤ d.length) (buf : UdpBuf) :
    headerAt (receive d buf) 0 = Message.ofBytes (d.take messageHeaderSize) := by
  have hsize : messageHeaderSize ≤ udpBufSize := by decide
  have hlen : messageHeaderSize ≤ (d.take udpBufSize).length := by
    rw [List.length_take]
    omega
  rw [headerAt, ← take_load _ _ hlen, receive, load_store_self, List.take_take,
    Nat.min_eq_left hsize]

/-- A datagram that has a header and fits the buffer gets the call that is due. -/
theorem dispatch_fitting (t : HandlerMap η) {d : List UInt8} (h : messageHeaderSize ≤ d.length)
    (h' : d.length ≤ udpBufSize) (buf : UdpBuf) :
    dispatch t d.length (receive d buf) = due t d := by
  have hmax : udpBufSize ≤ messageMaxSize := by decide
  have hpos : 0 < messageHeaderSize := by decide
  have hbody : load (receive d buf) messageHeaderSize ((d.length : ℤ) - messageHeaderSize).toNat =
      d.drop messageHeaderSize := by
    have hnat : ((d.length : ℤ) - messageHeaderSize).toNat = d.length - messageHeaderSize := by
      omega
    have hdrop := drop_load (receive d buf) 0 h
    rw [load_receive h', Nat.zero_add] at hdrop
    rw [hnat, ← hdrop]
  unfold dispatch due
  simp only [headerAt_receive h, hbody]
  by_cases hlen : (Message.ofBytes (d.take messageHeaderSize)).len.toInt = d.length
  · rw [if_pos (show Genuine d from ⟨h, h', hlen⟩), if_neg (by omega)]
  · rw [if_neg (show ¬ Genuine d from fun hg => hlen hg.2.2), if_pos (by tauto)]

/-- A datagram of another length gets no call if and only if the header made up for it fails the
test, or has no handler. -/
theorem dispatch_eq_none_iff (t : HandlerMap η) {n : ℕ} (hpos : 0 < n) (hmax : n ≤ messageMaxSize)
    (buf : UdpBuf) :
    dispatch t n buf = none ↔
      ((headerAt buf 0).len.toInt = n → t.getHandler (headerAt buf 0).id = none) := by
  unfold dispatch
  dsimp only
  by_cases hlen : (headerAt buf 0).len.toInt = n
  · rw [if_neg (by omega), Option.map_eq_none_iff]
    exact ⟨fun h _ => h, fun h => h hlen⟩
  · rw [if_pos (by tauto)]
    exact iff_of_true rfl fun h => absurd h hlen

/-- Nothing is dispatched for an empty datagram. -/
theorem dispatch_zero (t : HandlerMap η) (buf : UdpBuf) : dispatch t 0 buf = none := by
  unfold dispatch
  dsimp only
  rw [if_pos (by omega)]

/-- **The step**: a datagram gets the call that is due if and only if its header is its own. -/
theorem dispatch_eq_due_iff (t : HandlerMap η) (d : List UInt8) (buf : UdpBuf) :
    dispatch t (d.take udpBufSize).length (receive d buf) = due t d ↔ OwnHeader t buf d := by
  have hsize : messageHeaderSize ≤ udpBufSize := by decide
  have hmax : udpBufSize ≤ messageMaxSize := by decide
  unfold OwnHeader
  rw [List.length_take]
  rcases Nat.lt_or_ge d.length messageHeaderSize with hshort | hheader
  · have hdue : due t d = none := if_neg fun h => absurd h.1 (by omega)
    have hlong : ¬ udpBufSize < d.length := by omega
    rw [Nat.min_eq_right (by omega), hdue]
    rcases Nat.eq_zero_or_pos d.length with hzero | hpos
    · rw [hzero]
      exact iff_of_true (dispatch_zero t _) ⟨fun _ h => absurd h (by omega), fun h => by omega⟩
    · rw [dispatch_eq_none_iff t hpos (by omega)]
      exact ⟨fun h => ⟨fun _ _ => h, fun h' => absurd h' hlong⟩, fun h => h.1 hshort hpos⟩
  · rcases Nat.lt_or_ge udpBufSize d.length with hlong | hfits
    · have hdue : due t d = none := if_neg fun h => absurd h.2.1 (by omega)
      rw [Nat.min_eq_left hlong.le, hdue, dispatch_eq_none_iff t (by decide) hmax]
      exact ⟨fun h => ⟨fun h' => absurd h' (by omega), fun _ => h⟩, fun h => h.2 hlong⟩
    · rw [Nat.min_eq_right hfits]
      refine iff_of_true (dispatch_fitting t hheader hfits buf) ⟨fun h => ?_, fun h => ?_⟩
      · omega
      · omega

/-! ## A run of datagrams -/

/-- A call of `do_read`, in which the kernel answers as given. -/
def step (t : HandlerMap η) (e : UdpEndpoint α) (answers : List (RecvAnswer α)) :
    Except Empty (List (List UInt8 × Option (UdpCall η)) × UdpEndpoint α) :=
  .ok (doRead t answers e)

theorem doRead_due_iff (t : HandlerMap η) (answers : List (RecvAnswer α)) (e : UdpEndpoint α) :
    (∀ p ∈ (doRead t answers e).1, p.2 = due t p.1) ↔ OwnHeaders t e.readBuf answers := by
  induction answers generalizing e with
  | nil => exact iff_of_true (fun p hp => absurd hp List.not_mem_nil) trivial
  | cons answer answers ih =>
    cases answer with
    | interrupted => exact ih e
    | wouldBlock => exact iff_of_true (fun p hp => absurd hp List.not_mem_nil) trivial
    | failed => exact iff_of_true (fun p hp => absurd hp List.not_mem_nil) trivial
    | datagram src d =>
      have htail := ih { e with readBuf := receive d e.readBuf, addr := src }
      rw [OwnHeaders, ← htail, ← dispatch_eq_due_iff]
      exact List.forall_mem_cons

/-- **Dispatch depends on the datagrams themselves**, in every run of calls of `do_read`, if and
only if no datagram gets a header that is not its own. -/
theorem dispatch_due_iff (t : HandlerMap η) (addr : α) (reads : List (List (RecvAnswer α))) :
    (∃ outs e', run (step t) (new addr) reads = .ok (outs, e') ∧
      ∀ o ∈ outs, ∀ p ∈ o, p.2 = due t p.1) ↔
    Along (step t) (fun e answers => OwnHeaders t e.readBuf answers) (new addr) reads :=
  run_forall_iff_along
    (fun e answers => ⟨_, _, rfl, doRead_due_iff t answers e⟩) (new addr) reads

/-- Eight bytes whose length field says four; then four bytes, which come to lie before it. -/
theorem not_dispatch_due :
    ¬ ∀ (t : HandlerMap Unit) (reads : List (List (RecvAnswer Unit)))
      (outs : List (List (List UInt8 × Option (UdpCall Unit)))) (e' : UdpEndpoint Unit),
      run (step t) (new ()) reads = .ok (outs, e') → ∀ o ∈ outs, ∀ p ∈ o, p.2 = due t p.1 := by
  intro hall
  have hshort := hall (HandlerMap.registerHandler 0 () {})
    [[.datagram () [0, 0, 0, 0, 4, 0, 0, 0], .datagram () [0, 0, 0, 0], .wouldBlock]] _ _ rfl _
    (List.mem_singleton_self _) _ (List.mem_cons_of_mem _ (List.mem_singleton_self _))
  exact absurd (congrArg Option.isSome hshort) (by decide)

/-! ## Sending and receiving -/

/-- All bytes that `send` copies lie within the buffer, and whatever it sends is dispatched by the
other side with the id and the body given to it, whatever the read buffer there holds. -/
def Agrees (msgid : Int32) (body : List UInt8) : Prop :=
  ∀ (e : UdpEndpoint α) (ok : Bool), ∃ ret sent e', send msgid body ok e = .ok ((ret, sent), e') ∧
    ∀ addr d, sent = some (addr, d) → ∀ (t : HandlerMap η) (buf : UdpBuf),
      dispatch t (d.take udpBufSize).length (receive d buf) =
        (t.getHandler msgid).map fun handler => ⟨handler, msgid, body.length, body⟩

theorem memcpyTo_eq_ok_iff {size off : ℕ} {m m' : UdpBuf} {l : List UInt8} :
    memcpyTo size m off l = .ok m' ↔ off + l.length ≤ size ∧ store m off l = m' := by
  unfold memcpyTo
  split_ifs with h <;> simp [h]

/-- What `send` does with a body that is not too large. -/
theorem send_eq_ok {msgid : Int32} {body : List UInt8} (h : ¬ tooLarge body.length) {ok : Bool}
    {e e' : UdpEndpoint α} {o : ℤ × Option (α × List UInt8)}
    (hsend : send msgid body ok e = .ok (o, e')) :
    messageHeaderSize + body.length ≤ udpBufSize := by
  unfold send at hsend
  rw [if_neg h] at hsend
  obtain ⟨writeBuf, -, hsend⟩ := bind_eq_ok.mp hsend
  obtain ⟨writeBuf', hbody, -⟩ := bind_eq_ok.mp hsend
  exact (memcpyTo_eq_ok_iff.mp hbody).1

/-- A body that fits the buffer is sent behind its header. -/
theorem send_of_le (msgid : Int32) {body : List UInt8}
    (h : messageHeaderSize + body.length ≤ udpBufSize) (ok : Bool) (e : UdpEndpoint α) :
    ∃ writeBuf, send msgid body ok e =
      .ok (if ok then (((frame ⟨msgid, body⟩).length : ℤ), some (e.addr, frame ⟨msgid, body⟩))
        else (-1, none), { e with writeBuf := writeBuf }) := by
  have hfits : (⟨msgid, body⟩ : Dispatch).Fits := by
    simp only [Dispatch.Fits, messageMaxSize, messageHeaderSize, udpBufSize] at *
    omega
  have hlarge : ¬ tooLarge body.length := not_lt_of_ge hfits
  have hlen : (header msgid body).len.toInt.toNat = messageHeaderSize + body.length := by
    have := toInt_len_header hfits
    rw [length_frame] at this
    exact congrArg Int.toNat this
  have hhead : (header msgid body).bytes.length = messageHeaderSize := Message.length_bytes _
  have hload : ∀ m : UdpBuf,
      load (store (store m 0 (header msgid body).bytes) messageHeaderSize body) 0
        (header msgid body).len.toInt.toNat = frame ⟨msgid, body⟩ := by
    intro m
    have happ := load_store_append (store m 0 (header msgid body).bytes) 0 messageHeaderSize body
    rw [Nat.zero_add] at happ
    rw [hlen, happ, ← hhead, load_store_self]
    rfl
  have hfirst : 0 + (header msgid body).bytes.length ≤ udpBufSize := by
    rw [hhead]
    decide
  refine ⟨store (store e.writeBuf 0 (header msgid body).bytes) messageHeaderSize body, ?_⟩
  unfold send memcpyTo
  dsimp only
  rw [if_neg hlarge, if_pos hfirst, ok_bind, if_pos h, ok_bind, hload]
  cases ok <;> rfl

/-- The frame of a message that fits the buffer is dispatched as the message. -/
theorem dispatch_frame (t : HandlerMap η) {m : Dispatch} (h : (frame m).length ≤ udpBufSize)
    (buf : UdpBuf) :
    dispatch t ((frame m).take udpBufSize).length (receive (frame m) buf) =
      (t.getHandler m.id).map fun handler => ⟨handler, m.id, m.body.length, m.body⟩ := by
  have hfits : m.Fits := by
    rw [length_frame] at h
    simp only [Dispatch.Fits, messageMaxSize, messageHeaderSize, udpBufSize] at *
    omega
  have hhead : messageHeaderSize ≤ (frame m).length := by
    rw [length_frame]
    omega
  have hmsg : Message.ofBytes ((frame m).take messageHeaderSize) = header m.id m.body := by
    have := ofBytes_take_frame m []
    rwa [List.append_nil] at this
  have hgenuine : Genuine (frame m) := ⟨hhead, h, by rw [hmsg, toInt_len_header hfits]⟩
  have hbody : (frame m).drop messageHeaderSize = m.body :=
    List.drop_left' (Message.length_bytes _)
  have hlen : ((frame m).length : ℤ) - messageHeaderSize = m.body.length := by
    rw [length_frame]
    omega
  rw [List.take_of_length_le h, dispatch_fitting t hhead h, due, if_pos hgenuine, hmsg, hbody, hlen]
  rfl

/-- **Sending and receiving**: a body that `send` does not refuse as too large is copied within the
buffer and dispatched by the other side, if and only if it fits the buffer behind its header. -/
theorem send_agrees_iff (addr : α) (msgid : Int32) (body : List UInt8) :
    (¬ tooLarge body.length → Agrees (α := α) (η := η) msgid body) ↔
      messageHeaderSize + body.length ≤ udpBufSize ∨ tooLarge body.length := by
  constructor
  · intro hagrees
    by_cases hlarge : tooLarge body.length
    · exact Or.inr hlarge
    · obtain ⟨ret, sent, e', hsend, -⟩ := hagrees hlarge (new addr) true
      exact Or.inl (send_eq_ok hlarge hsend)
  · rintro (hle | hlarge) hnot
    · intro e ok
      obtain ⟨writeBuf, hsend⟩ := send_of_le msgid hle ok e
      refine ⟨_, _, _, hsend, fun dest d hd t buf => ?_⟩
      cases ok with
      | false => cases hd
      | true =>
        cases hd
        exact dispatch_frame t (by rw [length_frame]; exact hle) buf
    · exact absurd hlarge hnot

/-- A body of 1017 bytes does not fit behind its header. -/
theorem not_send_agrees :
    ¬ ∀ (msgid : Int32) (body : List UInt8), ¬ tooLarge body.length →
      Agrees (α := Unit) (η := Unit) msgid body := by
  intro hall
  have hlen : (List.replicate 1017 (0 : UInt8)).length = 1017 := List.length_replicate ..
  have hlarge : ¬ tooLarge (List.replicate 1017 (0 : UInt8)).length := by
    rw [hlen]
    decide
  obtain ⟨ret, sent, e', hsend, -⟩ := hall 1 _ hlarge (new ()) true
  have hle := send_eq_ok hlarge hsend
  rw [hlen] at hle
  exact absurd hle (by decide)

end UdpEndpoint

end Lars.Reactor
