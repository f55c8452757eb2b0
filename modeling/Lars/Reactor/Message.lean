import Lars.Foundations.Framing
import Lars.Foundations.LittleEndian
import Lars.Foundations.Memory

/-!
# The frames on the wire

A message travels as its header, the `struct message` of `lars_reactor/include/message.h` with the
message id and the length of header and body, followed by its body. `frame` is what
`tcp_conn::send` and `tcp_client::send` append to the output buffer.

`examine` is what the parse loops of `tcp_conn::handle_read` and `tcp_client::handle_read` find in
a pass, before they dispatch: the two loops share it and differ in the place they pass as `data`.
What it finds depends on the unread bytes alone (`examine_eq_find`): a frame when they start with
one (`find_frame`), and on the beginning of one it waits (`find_strictPrefix`).
-/

namespace Lars.Reactor

open Memory LittleEndian Framing

/-- `MESSAGE_HEADER_SIZE`. -/
def messageHeaderSize : ℕ := 8

/-- `MESSAGE_MAX_SIZE`. -/
def messageMaxSize : ℕ := 65535 - messageHeaderSize

/-- `struct message`. -/
@[ext]
structure Message where
  id : Int32
  len : Int32
  deriving DecidableEq

namespace Message

/-- The header's bytes in memory. -/
def bytes (m : Message) : List UInt8 := int32Bytes m.id ++ int32Bytes m.len

/-- The header read from bytes. -/
def ofBytes (l : List UInt8) : Message := ⟨int32OfBytes (l.take 4), int32OfBytes (l.drop 4)⟩

@[simp] theorem length_bytes (m : Message) : m.bytes.length = messageHeaderSize := by
  simp [bytes, messageHeaderSize]

@[simp] theorem ofBytes_bytes (m : Message) : ofBytes m.bytes = m := by
  simp [ofBytes, bytes, List.take_left', List.drop_left']

end Message

theorem Message.bytes_ofBytes {l : List UInt8} (h : l.length = messageHeaderSize) :
    (Message.ofBytes l).bytes = l := by
  have h₁ : (l.take 4).length = 4 := by
    rw [List.length_take, h]
    rfl
  have h₂ : (l.drop 4).length = 4 := by
    rw [List.length_drop, h]
    rfl
  rw [Message.bytes, Message.ofBytes, int32Bytes_ofBytes h₁, int32Bytes_ofBytes h₂,
    List.take_append_drop]

/-- A call of a handler: the message id and the body it is given. -/
structure Dispatch where
  id : Int32
  body : List UInt8
  deriving DecidableEq

/-- The header `send` puts before a body. -/
def header (id : Int32) (body : List UInt8) : Message :=
  ⟨id, Int32.ofInt (messageHeaderSize + body.length)⟩

/-- The frame of a message, as `send` lays it out. -/
def frame (m : Dispatch) : List UInt8 := (header m.id m.body).bytes ++ m.body

/-- A message whose frame the receivers accept. -/
def Dispatch.Fits (m : Dispatch) : Prop := m.body.length ≤ messageMaxSize - messageHeaderSize

instance : DecidablePred Dispatch.Fits := fun _ => inferInstanceAs (Decidable (_ ≤ _))

/-- What a parse loop finds in a pass. -/
inductive Found
  /-- Less than a header or less than the message: wait for more. -/
  | wait
  /-- A length out of range: close. -/
  | bad
  /-- A length below the header's own: `body` would be an array of negative length. -/
  | negative (bodyLen : ℤ)
  /-- A message of `len` bytes with its header. -/
  | message (len : ℕ) (m : Dispatch)

/-- The header at `data`. -/
def headerAt (mem : ℕ → UInt8) (data : ℕ) : Message :=
  .ofBytes (load mem data messageHeaderSize)

/-- A pass of a parse loop up to the call of the handler, the header being at `data` and `length`
bytes being buffered. -/
def examine (mem : ℕ → UInt8) (data length : ℕ) : Found :=
  if length < messageHeaderSize then .wait
  else
    let msg := headerAt mem data
    let msgLen := msg.len.toInt
    if msgLen > messageMaxSize ∨ msgLen < 0 then .bad
    else if length < msgLen then .wait
    else
      let bodyLen := msgLen - messageHeaderSize
      if bodyLen < 0 then .negative bodyLen
      else .message msgLen.toNat ⟨msg.id, load mem (data + messageHeaderSize) bodyLen.toNat⟩

@[simp] theorem length_frame (m : Dispatch) :
    (frame m).length = messageHeaderSize + m.body.length := by
  simp [frame]

theorem frame_ne_nil (m : Dispatch) : frame m ≠ [] := by
  rw [← List.length_pos_iff, length_frame, messageHeaderSize]
  omega

theorem length_frame_le {m : Dispatch} (h : m.Fits) : (frame m).length ≤ messageMaxSize := by
  rw [length_frame]
  simp only [Dispatch.Fits, messageMaxSize, messageHeaderSize] at *
  omega

theorem toInt_len_header {m : Dispatch} (h : m.Fits) :
    (header m.id m.body).len.toInt = (frame m).length := by
  have hle := length_frame_le h
  rw [length_frame] at hle ⊢
  simp only [messageMaxSize, messageHeaderSize] at hle
  rw [header, Int32.toInt_ofInt_of_le] <;>
    simp only [messageHeaderSize] <;> push_cast <;> omega

theorem ofBytes_take_frame (m : Dispatch) (rest : List UInt8) :
    Message.ofBytes ((frame m ++ rest).take messageHeaderSize) = header m.id m.body := by
  rw [frame, List.append_assoc, List.take_left' (Message.length_bytes _), Message.ofBytes_bytes]

/-! ## A pass of a parse loop, in terms of the bytes -/

/-- What a parse loop finds in the buffered bytes, when the header is the first of them. -/
def find (c : List UInt8) : Found :=
  if c.length < messageHeaderSize then .wait
  else
    let msg := Message.ofBytes (c.take messageHeaderSize)
    let msgLen := msg.len.toInt
    if msgLen > messageMaxSize ∨ msgLen < 0 then .bad
    else if c.length < msgLen then .wait
    else
      let bodyLen := msgLen - messageHeaderSize
      if bodyLen < 0 then .negative bodyLen
      else .message msgLen.toNat ⟨msg.id, (c.drop messageHeaderSize).take bodyLen.toNat⟩

theorem examine_eq_find (mem : ℕ → UInt8) (data length : ℕ) :
    examine mem data length = find (load mem data length) := by
  unfold examine find headerAt
  rw [length_load]
  split_ifs with hlen
  · rfl
  · rw [take_load mem data (by omega), drop_load mem data (by omega)]
    dsimp only
    split_ifs with hbad hwait hneg <;> try rfl
    rw [take_load _ _ (by omega)]

/-- The first of the buffered frames is found. -/
theorem find_frame {m : Dispatch} (h : m.Fits) (rest : List UInt8) :
    find (frame m ++ rest) = .message (frame m).length m := by
  have hlen := toInt_len_header h
  have hid : (header m.id m.body).id = m.id := rfl
  have hle := length_frame_le h
  have hhead : messageHeaderSize ≤ (frame m).length := by
    rw [length_frame]
    omega
  have hbody : ((frame m ++ rest).drop messageHeaderSize).take
      ((frame m).length - messageHeaderSize) = m.body := by
    rw [frame, List.append_assoc, List.drop_left' (Message.length_bytes _), List.length_append,
      Message.length_bytes, Nat.add_sub_cancel_left, List.take_left]
  have hnat : (((frame m).length : ℤ) - messageHeaderSize).toNat =
      (frame m).length - messageHeaderSize := by omega
  unfold find
  simp only [ofBytes_take_frame, hlen, hid, hnat, hbody, Int.toNat_natCast, List.length_append]
  split_ifs <;> first | rfl | omega

/-- A strict prefix of a frame is waited for. -/
theorem find_strictPrefix {m : Dispatch} (h : m.Fits) {p t : List UInt8} (ht : t ≠ [])
    (hp : p ++ t = frame m) : find p = .wait := by
  have hlt : p.length < (frame m).length := by
    have := List.length_pos_iff.mpr ht
    rw [← hp, List.length_append]
    omega
  unfold find
  split_ifs with hlen
  · rfl
  · have hhdr : Message.ofBytes (p.take messageHeaderSize) = header m.id m.body := by
      have := ofBytes_take_frame m []
      rwa [List.append_nil, ← hp, List.take_append_of_le_length (by omega)] at this
    have hle := length_frame_le h
    simp only [hhdr, toInt_len_header h]
    split_ifs <;> first | rfl | omega

/-- A message found has a header's length at least and lies within the buffered bytes. -/
theorem find_message {c : List UInt8} {len : ℕ} {m : Dispatch} (h : find c = .message len m) :
    messageHeaderSize ≤ len ∧ len ≤ c.length ∧ m.body.length = len - messageHeaderSize := by
  unfold find at h
  split_ifs at h with hlen
  dsimp only at h
  split_ifs at h with hbad hwait hneg
  obtain ⟨rfl, rfl⟩ := Found.message.inj h
  simp only [List.length_take, List.length_drop]
  omega

/-- **What is accepted is well formed**: a message is found only where its frame is. -/
theorem frame_of_find {c : List UInt8} {len : ℕ} {m : Dispatch} (h : find c = .message len m) :
    m.Fits ∧ len = (frame m).length ∧ c = frame m ++ c.drop len := by
  obtain ⟨hle, hlen, hbody⟩ := find_message h
  unfold find at h
  split_ifs at h with hshort
  dsimp only at h
  split_ifs at h with hbad hwait hneg
  obtain ⟨hl, hm⟩ := Found.message.inj h
  have htake : (c.take messageHeaderSize).length = messageHeaderSize := by
    rw [List.length_take]
    omega
  have hframe : len = (frame m).length := by
    rw [length_frame]
    omega
  have hmax : len ≤ messageMaxSize := by omega
  have hfits : m.Fits := by
    simp only [Dispatch.Fits]
    omega
  have hhdr : header m.id m.body = Message.ofBytes (c.take messageHeaderSize) := by
    refine Message.ext ?_ (Int32.toInt_inj.mp ?_)
    · rw [← hm]
      rfl
    · rw [toInt_len_header hfits]
      omega
  have hcut : (c.drop messageHeaderSize).take (len - messageHeaderSize) = m.body := by
    have hnat : ((Message.ofBytes (c.take messageHeaderSize)).len.toInt - messageHeaderSize).toNat =
        len - messageHeaderSize := by omega
    rw [← hm, hnat]
  refine ⟨hfits, hframe, ?_⟩
  rw [frame, hhdr, Message.bytes_ofBytes htake, ← hcut, List.append_assoc]
  conv_lhs => rw [← List.take_append_drop messageHeaderSize c,
    ← List.take_append_drop (len - messageHeaderSize) (c.drop messageHeaderSize), List.drop_drop,
    Nat.add_sub_cancel' hle]

theorem find_partial {ms : List Dispatch} (h : ∀ m ∈ ms, m.Fits) {p : List UInt8}
    (hp : Partial frame ms p) : find p = .wait := by
  rcases hp with rfl | ⟨m, hm, t, ht, hp⟩
  · rfl
  · exact find_strictPrefix (h m hm) ht hp

end Lars.Reactor
