import Lars.Agent.Shards
import Lars.Dns.Subscribe
import Lars.Reactor.Message

/-!
# The API asks for a host

`lars_client::get_host` (`api/cpp/lars_api/lars_api.cc`) sends a request to the agent on the socket
of its shard and reads answers from that socket until one comes whose number is not less than the
request's. It looks at nothing in the header of what it reads, and takes what `ParseFromArray` says,
a `bool`, for an `int` that would be negative on failure.

* What is returned as success comes from a genuine answer, and no length read is too short for an
  array of the body, if and only if every buffer read up to the first that is not stale is long
  enough, and is genuine if its body passes for the answer (`getHost_genuine_iff`).
-/

namespace Lars.Api

open Machine Reactor LittleEndian

/-! ## Messages -/

/-- `lars::LarsRetCode`. -/
inductive LarsRetCode
  | succ
  | overload
  | systemError
  | noexist
  deriving DecidableEq

/-- The number of a return code. -/
def LarsRetCode.toInt : LarsRetCode → Int32
  | succ => 0
  | overload => 1
  | systemError => 2
  | noexist => 3

/-- `lars::GetHostResponse`. -/
structure GetHostResponse where
  seq : UInt32 := 0
  modid : Int32 := 0
  cmdid : Int32 := 0
  retcode : Int32 := 0
  host : Option Dns.HostInfo := none
  deriving DecidableEq

/-- `GetHostResponse::host`: a host that is not set has the defaults. -/
def GetHostResponse.hostInfo (resp : GetHostResponse) : Dns.HostInfo := resp.host.getD ⟨0, 0⟩

/-- A field that is a message, with the length of its bytes. -/
def messageField (number : UInt8) (bytes : List UInt8) : List UInt8 :=
  (number * 8 + 2) :: (varint 10 bytes.length ++ bytes)

/-- `GetHostResponse::SerializeAsString`. -/
def GetHostResponse.serialize (resp : GetHostResponse) : List UInt8 :=
  varintField 1 resp.seq.toUInt64 ++ varintField 2 resp.modid.toInt64.toUInt64 ++
    varintField 3 resp.cmdid.toInt64.toUInt64 ++ varintField 4 resp.retcode.toInt64.toUInt64 ++
    resp.host.elim [] fun host => messageField 5
      (varintField 1 host.ip.toInt64.toUInt64 ++ varintField 2 host.port.toInt64.toUInt64)

/-- What the client uses of the code generated from `lars.proto`. -/
structure Protobuf where
  /-- `GetHostResponse::ParseFromArray`: the value returned, and the message as it is left, whether
  or not parsing has failed. It does not depend on what the message was before. -/
  parseGetHostResponse : List UInt8 → Bool × GetHostResponse

/-! ## The client -/

/-- `lars_client`; its sockets are `Agent.socks`. -/
structure LarsClient where
  mSeqid : UInt32 := 0

/-- The answer of `recvfrom`. -/
inductive RecvFrom
  /-- The bytes put into `read_buf`, at most 2048; none when the agent has closed. -/
  | data (buf : List UInt8)
  /-- `-1`. -/
  | failed
  deriving DecidableEq

/-- How the loop that receives is left: with a response, or with an error. -/
inductive Received
  | response (resp : GetHostResponse)
  | systemError
  deriving DecidableEq

/-- `inet_ntoa`. -/
def inetNtoa (ip : Int32) : String :=
  ".".intercalate ((int32Bytes ip).map fun b => toString b.toNat)

/-- What `get_host` returns, and the `ip` and the `port` it sets. -/
structure HostAnswer where
  ret : Int32
  host : Option (String × Int32)

section GetHost

variable (P : Protobuf)

/-- The loop that receives; with it, the answers of the kernel that are left. Without an answer it
is still waiting (`none`). -/
def receive (seq : UInt32) : List RecvFrom → Except Halt (Option (Received × List RecvFrom))
  | [] => .ok none
  | .failed :: answers => .ok (some (.systemError, answers))
  | .data buf :: answers =>
    let msgLen := buf.length
    if msgLen = 0 then .ok (some (.systemError, answers))
    -- `char body[msg_len - MESSAGE_HEADER_SIZE]`
    else if (msgLen : ℤ) - messageHeaderSize < 0 then .error .undefined
    else
      let body := buf.drop messageHeaderSize
      let (parsed, resp) := P.parseGetHostResponse body
      let ret : ℤ := if parsed then 1 else 0
      if ret < 0 then .ok (some (.systemError, answers))
      else if resp.seq < seq then receive seq answers
      else .ok (some (.response resp, answers))

/-- `RET_SYSTEM_ERROR`, with nothing set. -/
def HostAnswer.systemError : HostAnswer := ⟨LarsRetCode.systemError.toInt, none⟩

/-- The return code and the host of a response. -/
def answerOf (resp : GetHostResponse) : HostAnswer :=
  ⟨resp.retcode,
    if resp.retcode = 0 then some (inetNtoa resp.hostInfo.ip, resp.hostInfo.port) else none⟩

/-- What is returned for a response. -/
def conclude (seq : UInt32) (modid cmdid : Int32) (resp : GetHostResponse) : HostAnswer :=
  if resp.seq ≠ seq ∨ resp.modid ≠ modid ∨ resp.cmdid ≠ cmdid then .systemError
  else answerOf resp

/-- What is returned when the loop is left. -/
def afterLoop (seq : UInt32) (modid cmdid : Int32) : Received → HostAnswer
  | .systemError => .systemError
  | .response resp => conclude seq modid cmdid resp

/-- A call of `lars_client::get_host`: `sent` says whether `sendto` succeeds, and `answers` are the
answers to `recvfrom` on the socket chosen. -/
structure GetHostCall where
  modid : Int32
  cmdid : Int32
  sent : Bool
  answers : List RecvFrom

/-- What a call shows: the message sent with the port of its agent's server, what is returned (not
if it is still waiting), and the answers left on the socket. -/
structure GetHostShown where
  request : Option (ℕ × Dispatch)
  answer : Option HostAnswer
  left : List RecvFrom

/-- `lars_client::get_host`. -/
def getHost (c : LarsClient) (call : GetHostCall) : Except Halt (GetHostShown × LarsClient) := do
  let seq := c.mSeqid
  let c := { c with mSeqid := c.mSeqid + 1 }
  let req : GetHostRequest := ⟨seq, call.modid, call.cmdid⟩
  let sock ← Agent.getHostSock call.modid call.cmdid
  if !call.sent then
    .ok (⟨none, some .systemError, call.answers⟩, c)
  else
    let request := some (sock, ⟨MessageId.getHostRequest.toInt, req.serialize⟩)
    let received ← receive P seq call.answers
    match received with
    | none => .ok (⟨request, none, []⟩, c)
    | some (r, left) => .ok (⟨request, some (afterLoop seq call.modid call.cmdid r), left⟩, c)

/-! ## The loop that receives -/

/-- The response in a buffer, as the code takes it. -/
def responseIn (buf : List UInt8) : GetHostResponse :=
  (P.parseGetHostResponse (buf.drop messageHeaderSize)).2

/-- A buffer that the loop passes over: the response in it has a number less than the current
one. -/
def Stale (seq : UInt32) (a : RecvFrom) : Prop :=
  ∃ buf, a = .data buf ∧ messageHeaderSize ≤ buf.length ∧ (responseIn P buf).seq < seq

variable {P}

theorem receive_data {buf : List UInt8} (h : messageHeaderSize ≤ buf.length) (seq : UInt32)
    (answers : List RecvFrom) :
    receive P seq (.data buf :: answers) =
      if (responseIn P buf).seq < seq then receive P seq answers
      else .ok (some (.response (responseIn P buf), answers)) := by
  have hpos : 0 < messageHeaderSize := by decide
  have hret : ∀ b : Bool, ¬ (if b then (1 : ℤ) else 0) < 0 := by decide
  rw [receive]
  dsimp only
  rw [if_neg (by omega), if_neg (by omega), if_neg (hret _)]
  rfl

/-- The loop is left on a buffer with the current number. -/
theorem receive_current {buf : List UInt8} (h : messageHeaderSize ≤ buf.length) {seq : UInt32}
    (hseq : (responseIn P buf).seq = seq) (answers : List RecvFrom) :
    receive P seq (.data buf :: answers) =
      .ok (some (.response (responseIn P buf), answers)) := by
  rw [receive_data h, if_neg (by rw [hseq]; exact UInt32.lt_irrefl seq)]

/-- A buffer that is shorter than a header makes the body's length negative. -/
theorem receive_short {buf : List UInt8} (h : buf.length < messageHeaderSize)
    (hpos : 0 < buf.length) (seq : UInt32) (answers : List RecvFrom) :
    receive P seq (.data buf :: answers) = .error .undefined := by
  rw [receive]
  dsimp only
  rw [if_neg (by omega), if_pos (by omega)]

theorem receive_stale {seq : UInt32} {pre : List RecvFrom} (h : ∀ a ∈ pre, Stale P seq a)
    (answers : List RecvFrom) : receive P seq (pre ++ answers) = receive P seq answers := by
  induction pre with
  | nil => rfl
  | cons a pre ih =>
    obtain ⟨buf, rfl, hlen, hseq⟩ := h a List.mem_cons_self
    rw [List.cons_append, receive_data hlen, if_pos hseq]
    exact ih fun a' ha' => h a' (List.mem_cons_of_mem _ ha')

/-- How the loop ends: with all answers passed over, with an error of the socket, on a buffer that
is too short, or with the response in the first buffer that is not stale. -/
theorem receive_cases (P : Protobuf) (seq : UInt32) (answers : List RecvFrom) :
    receive P seq answers = .ok none ∨
    (∃ left, receive P seq answers = .ok (some (.systemError, left))) ∨
    ∃ pre buf left, answers = pre ++ .data buf :: left ∧ (∀ a ∈ pre, Stale P seq a) ∧
      0 < buf.length ∧
      (buf.length < messageHeaderSize ∧ receive P seq answers = .error .undefined ∨
        messageHeaderSize ≤ buf.length ∧
          receive P seq answers = .ok (some (.response (responseIn P buf), left))) := by
  induction answers with
  | nil => exact Or.inl rfl
  | cons a answers ih =>
    cases a with
    | failed => exact Or.inr (Or.inl ⟨answers, rfl⟩)
    | data buf =>
      rcases Nat.eq_zero_or_pos buf.length with hzero | hpos
      · exact Or.inr (Or.inl ⟨answers, if_pos hzero⟩)
      rcases Nat.lt_or_ge buf.length messageHeaderSize with hshort | hlen
      · exact Or.inr (Or.inr ⟨[], buf, answers, rfl, fun _ h => absurd h List.not_mem_nil, hpos,
          Or.inl ⟨hshort, receive_short hshort hpos seq answers⟩⟩)
      by_cases hseq : (responseIn P buf).seq < seq
      · have hskip := receive_data (P := P) hlen seq answers
        rw [if_pos hseq] at hskip
        rw [hskip]
        rcases ih with h | h | ⟨pre, buf', left, rfl, hpre, hpos', h⟩
        · exact Or.inl h
        · exact Or.inr (Or.inl h)
        · refine Or.inr (Or.inr ⟨.data buf :: pre, buf', left, rfl, fun a ha => ?_, hpos', h⟩)
          rcases List.mem_cons.mp ha with rfl | ha
          · exact ⟨buf, rfl, hlen, hseq⟩
          · exact hpre a ha
      · have hstop := receive_data (P := P) hlen seq answers
        rw [if_neg hseq] at hstop
        exact Or.inr (Or.inr ⟨[], buf, answers, rfl, fun _ h => absurd h List.not_mem_nil, hpos,
          Or.inr ⟨hlen, hstop⟩⟩)

/-! ## Success is genuine -/

/-- The response is to the request with the number and the ids, and reports success. -/
def GetHostResponse.Matches (resp : GetHostResponse) (seq : UInt32) (modid cmdid : Int32) : Prop :=
  resp.seq = seq ∧ resp.modid = modid ∧ resp.cmdid = cmdid ∧ resp.retcode = LarsRetCode.succ.toInt

instance (resp : GetHostResponse) (seq : UInt32) (modid cmdid : Int32) :
    Decidable (resp.Matches seq modid cmdid) := inferInstanceAs (Decidable (_ ∧ _))

/-- The call returns success, or sets a host. -/
def HostAnswer.Succeeds (a : HostAnswer) : Prop :=
  a.ret = LarsRetCode.succ.toInt ∨ a.host.isSome = true

variable (P) in
/-- A buffer that is the agent's answer to the request. -/
structure Genuine (seq : UInt32) (modid cmdid : Int32) (buf : List UInt8) : Prop where
  length_le : messageHeaderSize ≤ buf.length
  id_eq : (Message.ofBytes (buf.take messageHeaderSize)).id = MessageId.getHostResponse.toInt
  len_eq : (Message.ofBytes (buf.take messageHeaderSize)).len.toInt = buf.length
  parsed : (P.parseGetHostResponse (buf.drop messageHeaderSize)).1 = true
  matches_request : (responseIn P buf).Matches seq modid cmdid

variable (P) in
/-- What is returned as success, and as a host, is from a genuine buffer, the last one read; and no
length makes a body's size negative, so that only the choice of the socket can go wrong. -/
structure Trustworthy (c : LarsClient) (call : GetHostCall) : Prop where
  genuine : ∀ shown c' a, getHost P c call = .ok (shown, c') → shown.answer = some a →
    a.Succeeds → ∃ pre buf, call.answers = pre ++ .data buf :: shown.left ∧
      Genuine P c.mSeqid call.modid call.cmdid buf ∧
      a = conclude c.mSeqid call.modid call.cmdid (responseIn P buf)
  defined : ∀ t, getHost P c call = .error t → Agent.getHostSock call.modid call.cmdid = .error t

variable (P) in
/-- If the request is sent, every buffer read up to the first that is not stale has a header's
length, and is genuine if its body passes for the answer. -/
def Unforged (c : LarsClient) (call : GetHostCall) : Prop :=
  (Agent.getHostSock call.modid call.cmdid).isOk = true → call.sent = true →
  ∀ pre buf left, call.answers = pre ++ .data buf :: left → (∀ a ∈ pre, Stale P c.mSeqid a) →
    0 < buf.length → messageHeaderSize ≤ buf.length ∧
      ((responseIn P buf).Matches c.mSeqid call.modid call.cmdid →
        Genuine P c.mSeqid call.modid call.cmdid buf)

theorem not_succeeds_systemError : ¬ HostAnswer.systemError.Succeeds := by
  rintro (h | h)
  · exact absurd h (by decide)
  · cases h

/-- Success is returned, and a host set, exactly for a response that matches. -/
theorem succeeds_conclude_iff {seq : UInt32} {modid cmdid : Int32} {resp : GetHostResponse} :
    (conclude seq modid cmdid resp).Succeeds ↔ resp.Matches seq modid cmdid := by
  unfold conclude GetHostResponse.Matches
  by_cases hne : resp.seq ≠ seq ∨ resp.modid ≠ modid ∨ resp.cmdid ≠ cmdid
  · rw [if_pos hne]
    refine iff_of_false not_succeeds_systemError ?_
    tauto
  · rw [if_neg hne]
    simp only [not_or, ne_eq, not_not] at hne
    obtain ⟨h₁, h₂, h₃⟩ := hne
    unfold HostAnswer.Succeeds answerOf
    by_cases hret : resp.retcode = 0
    · exact iff_of_true (Or.inl hret) ⟨h₁, h₂, h₃, hret⟩
    · refine iff_of_false ?_ fun h => hret h.2.2.2
      rintro (h | h)
      · exact hret h
      · rw [if_neg hret] at h
        cases h

/-- A call that finds no socket. -/
theorem getHost_no_sock {c : LarsClient} {call : GetHostCall} {t : Halt}
    (hsock : Agent.getHostSock call.modid call.cmdid = .error t) : getHost P c call = .error t := by
  unfold getHost
  rw [hsock]
  rfl

/-- A call whose request is not sent. -/
theorem getHost_unsent {c : LarsClient} {call : GetHostCall} {sock : ℕ}
    (hsock : Agent.getHostSock call.modid call.cmdid = .ok sock) (hsent : call.sent = false) :
    getHost P c call =
      .ok (⟨none, some .systemError, call.answers⟩, { c with mSeqid := c.mSeqid + 1 }) := by
  unfold getHost
  rw [hsock, ok_bind, hsent]
  rfl

/-- A call whose request is sent comes down to the loop. -/
theorem getHost_sent {c : LarsClient} {call : GetHostCall} {sock : ℕ}
    (hsock : Agent.getHostSock call.modid call.cmdid = .ok sock) (hsent : call.sent = true) :
    getHost P c call = receive P c.mSeqid call.answers >>= fun received =>
      .ok (⟨some (sock, ⟨MessageId.getHostRequest.toInt,
            GetHostRequest.serialize ⟨c.mSeqid, call.modid, call.cmdid⟩⟩),
          received.map fun r => afterLoop c.mSeqid call.modid call.cmdid r.1,
          (received.map Prod.snd).getD []⟩, { c with mSeqid := c.mSeqid + 1 }) := by
  unfold getHost
  rw [hsock, ok_bind, hsent]
  cases receive P c.mSeqid call.answers with
  | error t => rfl
  | ok received => cases received <;> rfl

/-- A call is trustworthy if it does not succeed and does not stop. -/
theorem trustworthy_of_not_succeeds {c c' : LarsClient} {call : GetHostCall} {shown : GetHostShown}
    (hcall : getHost P c call = .ok (shown, c'))
    (hnot : ∀ a, shown.answer = some a → ¬ a.Succeeds) : Trustworthy P c call where
  genuine shown' c'' a h ha hsucc := by
    cases hcall.symm.trans h
    exact absurd hsucc (hnot a ha)
  defined t h := by cases hcall.symm.trans h

theorem Trustworthy.unforged {c : LarsClient} {call : GetHostCall} (h : Trustworthy P c call) :
    Unforged P c call := by
  intro hsock hsent pre buf left hanswers hpre hpos
  obtain ⟨sock, hsock⟩ : ∃ sock, Agent.getHostSock call.modid call.cmdid = .ok sock := by
    cases h : Agent.getHostSock call.modid call.cmdid with
    | error t =>
      rw [h] at hsock
      cases hsock
    | ok sock => exact ⟨sock, rfl⟩
  have hcall := getHost_sent (P := P) (c := c) hsock hsent
  rw [hanswers, receive_stale hpre] at hcall
  have hlen : messageHeaderSize ≤ buf.length := by
    by_contra hshort
    rw [receive_short (by omega) hpos] at hcall
    cases hsock.symm.trans (h.defined _ hcall)
  refine ⟨hlen, fun hmatches => ?_⟩
  rw [receive_current hlen hmatches.1] at hcall
  obtain ⟨pre', buf', hanswers', hgenuine, -⟩ :=
    h.genuine _ _ _ hcall rfl (succeeds_conclude_iff.mpr hmatches)
  -- the same answers are left, so the last buffer read is the same
  obtain ⟨-, hlast⟩ := List.append_inj' (hanswers.symm.trans hanswers') rfl
  cases hlast
  exact hgenuine

theorem Unforged.trustworthy {c : LarsClient} {call : GetHostCall} (h : Unforged P c call) :
    Trustworthy P c call := by
  cases hsock : Agent.getHostSock call.modid call.cmdid with
  | error t =>
    refine ⟨fun shown c' a h' => ?_, fun t' h' => ?_⟩
    · cases (getHost_no_sock hsock).symm.trans h'
    · cases (getHost_no_sock hsock).symm.trans h'
      exact hsock
  | ok sock =>
    cases hsent : call.sent with
    | false =>
      refine trustworthy_of_not_succeeds (getHost_unsent hsock hsent) ?_
      rintro a ⟨⟩
      exact not_succeeds_systemError
    | true =>
      have hcall := getHost_sent (P := P) (c := c) hsock hsent
      have hread := h (by rw [hsock]; rfl) hsent
      rcases receive_cases P c.mSeqid call.answers with hr | ⟨left, hr⟩ |
        ⟨pre, buf, left, hanswers, hpre, hpos, ⟨hshort, -⟩ | ⟨hlen, hr⟩⟩
      · rw [hr] at hcall
        refine trustworthy_of_not_succeeds hcall ?_
        rintro a ⟨⟩
      · rw [hr] at hcall
        refine trustworthy_of_not_succeeds hcall ?_
        rintro a ⟨⟩
        exact not_succeeds_systemError
      · exact absurd (hread pre buf left hanswers hpre hpos).1 (Nat.not_le_of_lt hshort)
      · rw [hr] at hcall
        refine ⟨fun shown c' a h' ha hsucc => ?_, fun t h' => ?_⟩
        · cases hcall.symm.trans h'
          cases ha
          exact ⟨pre, buf, hanswers, (hread pre buf left hanswers hpre hpos).2
            (succeeds_conclude_iff.mp hsucc), rfl⟩
        · cases hcall.symm.trans h'

/-- **Success is genuine**: a call is trustworthy if and only if nothing it reads is forged. -/
theorem getHost_genuine_iff (P : Protobuf) (c : LarsClient) (call : GetHostCall) :
    Trustworthy P c call ↔ Unforged P c call :=
  ⟨Trustworthy.unforged, Unforged.trustworthy⟩

/-- The generated code, right on the bodies of the messages given and on no bytes at all. -/
def knowing (known : List GetHostResponse) : Protobuf where
  parseGetHostResponse body :=
    match known.find? fun resp => resp.serialize = body with
    | some resp => (true, resp)
    | none => (body.isEmpty, {})

/-- A buffer with an answer in it. -/
def answerBuf (resp : GetHostResponse) : List UInt8 :=
  frame ⟨MessageId.getHostResponse.toInt, resp.serialize⟩

/-- Command 0 of module 0 is asked for in the first call. Eight zeros are taken for an answer, and a
single byte for one with a body of length -7. -/
theorem not_getHost_genuine :
    ¬ Trustworthy (knowing []) {} ⟨0, 0, true, [.data [0, 0, 0, 0, 0, 0, 0, 0]]⟩ ∧
    ¬ Trustworthy (knowing []) {} ⟨0, 0, true, [.data [0]]⟩ := by
  refine ⟨fun h => ?_, fun h => ?_⟩
  · have hgenuine := (h.unforged rfl rfl [] _ [] rfl (fun _ h => absurd h List.not_mem_nil)
      (by decide)).2 (by decide)
    exact absurd hgenuine.id_eq (by decide)
  · cases h.defined .undefined rfl

end GetHost

end Lars.Api
