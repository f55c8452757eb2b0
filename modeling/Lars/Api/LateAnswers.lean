import Lars.Proto.Messages

/-!
# Late answers

The client numbers its requests, and passes over answers whose numbers are less than the current
one. Its sockets are streams, so that answers that are unread together come out of one `recvfrom`;
the client reads the first of them and drops the others with it.

* Answers to earlier calls are discarded, and what is in the current one is returned, if and only if
  those at the front of what `recvfrom` returns have numbers less than the current one, and the
  current one is at the front itself (`getHost_discards_iff`). The numbers wrap.
-/

namespace Lars.Api

open Machine Reactor LittleEndian WireFormat

section GetHost

variable (P : Protobuf)

/-- A well-formed answer to the call with the number `n` of a client, counted from 0. -/
structure AnswerTo (n : ℕ) (buf : List UInt8) : Prop where
  length_le : messageHeaderSize ≤ buf.length
  id_eq : (Message.ofBytes (buf.take messageHeaderSize)).id = MessageId.getHostResponse.toInt
  len_eq : (Message.ofBytes (buf.take messageHeaderSize)).len.toInt = buf.length
  parsed : (P.parseGetHostResponse (buf.drop messageHeaderSize)).1 = true
  seq_eq : (responseIn P buf).seq = UInt32.ofNat n

/-- Behind a whole message, a tag with the field number 0 ends parsing, and the message is left as
it was read. -/
def EndsAtZero : Prop :=
  ∀ (body : List UInt8) (tag : UInt8) (more : List UInt8),
    (P.parseGetHostResponse body).1 = true → tag < 8 →
      (P.parseGetHostResponse (body ++ tag :: more)).2 = (P.parseGetHostResponse body).2

/-- The call reads all of the chunks, one with each `recvfrom`, and returns what is in `buf`. -/
def Discards (c : LarsClient) (modid cmdid : Int32) (chunks : List (List UInt8))
    (buf : List UInt8) (rest : List RecvFrom) : Prop :=
  ∃ shown c', getHost P c ⟨modid, cmdid, true, chunks.map .data ++ rest⟩ = .ok (shown, c') ∧
    shown.answer = some (answerOf (responseIn P buf)) ∧ shown.left = rest

/-- The chunk of answers that come together, each with the number of its call. -/
def together (answers : List (ℕ × List UInt8)) : List UInt8 := answers.flatMap Prod.snd

/-- The answer is not passed over, and the call makes the same of it as of the current one. -/
def PassesFor (n : ℕ) (modid cmdid : Int32) (buf : List UInt8) (p : ℕ × List UInt8) : Prop :=
  n % UInt32.size ≤ p.1 % UInt32.size ∧
    conclude (UInt32.ofNat n) modid cmdid (responseIn P p.2) = answerOf (responseIn P buf)

variable {P}

/-! ## The numbers of the calls -/

/-- Every call takes the next number. -/
theorem mSeqid_getHost {c c' : LarsClient} {call : GetHostCall} {shown : GetHostShown}
    (h : getHost P c call = .ok (shown, c')) : c'.mSeqid = c.mSeqid + 1 := by
  cases hsock : Agent.getHostSock call.modid call.cmdid with
  | error t => cases (getHost_no_sock hsock).symm.trans h
  | ok sock =>
    cases hsent : call.sent with
    | false =>
      cases (getHost_unsent hsock hsent).symm.trans h
      rfl
    | true =>
      rw [getHost_sent hsock hsent] at h
      obtain ⟨received, -, h⟩ := bind_eq_ok.mp h
      cases h
      rfl

/-- The number of the next call, wrapped. -/
theorem mSeqid_of_run {calls : List GetHostCall} {c c' : LarsClient} {outs : List GetHostShown}
    (h : run (getHost P) c calls = .ok (outs, c')) :
    c'.mSeqid = c.mSeqid + UInt32.ofNat calls.length := by
  induction calls generalizing c outs with
  | nil =>
    obtain ⟨-, rfl⟩ : [] = outs ∧ c = c' := by simpa using h
    exact (UInt32.add_zero _).symm
  | cons call calls ih =>
    obtain ⟨shown, c₁, outs', h₁, h₂, -⟩ := run_cons_eq_ok.mp h
    rw [ih h₂, mSeqid_getHost h₁, List.length_cons, UInt32.ofNat_add, UInt32.add_assoc,
      UInt32.add_comm 1]
    rfl

theorem ofNat_lt_ofNat_iff (k n : ℕ) :
    UInt32.ofNat k < UInt32.ofNat n ↔ k % UInt32.size < n % UInt32.size := by
  rw [UInt32.lt_iff_toNat_lt, UInt32.toNat_ofNat', UInt32.toNat_ofNat']

/-- An answer to an earlier call does not pass for the current one before the numbers wrap. -/
theorem not_passesFor {n : ℕ} (hn : n < UInt32.size) {modid cmdid : Int32} {buf : List UInt8}
    {p : ℕ × List UInt8} (hp : p.1 < n) : ¬ PassesFor P n modid cmdid buf p := by
  intro h
  have hle := h.1
  rw [Nat.mod_eq_of_lt hn, Nat.mod_eq_of_lt (Nat.lt_trans hp hn)] at hle
  exact Nat.not_lt_of_le hle hp

/-! ## Answers that come together -/

/-- An answer begins with a tag that has the field number 0. -/
theorem AnswerTo.exists_cons {n : ℕ} {buf : List UInt8} (h : AnswerTo P n buf) :
    ∃ more, buf = 5 :: more := by
  have hlen : (buf.take messageHeaderSize).length = messageHeaderSize := by
    rw [List.length_take, Nat.min_eq_left h.length_le]
  have hbytes := Message.bytes_ofBytes hlen
  rw [Message.bytes, h.id_eq] at hbytes
  have hid : int32Bytes MessageId.getHostResponse.toInt = [5, 0, 0, 0] := by decide
  rw [hid, List.cons_append] at hbytes
  rw [← List.take_append_drop messageHeaderSize buf, ← hbytes]
  exact ⟨_, rfl⟩

theorem responseIn_append (hP : EndsAtZero P) {n : ℕ} {buf : List UInt8} (h : AnswerTo P n buf)
    (more : List UInt8) : responseIn P (buf ++ 5 :: more) = responseIn P buf := by
  unfold responseIn
  rw [List.drop_append_of_le_length h.length_le]
  exact hP _ 5 more h.parsed (by decide)

/-- **Only the first is read** of answers that come together. -/
theorem responseIn_together (hP : EndsAtZero P) {p : ℕ × List UInt8} {ps : List (ℕ × List UInt8)}
    (hp : ∀ q ∈ p :: ps, AnswerTo P q.1 q.2) :
    responseIn P (together (p :: ps)) = responseIn P p.2 := by
  have hhead := hp p List.mem_cons_self
  cases ps with
  | nil => rw [together, List.flatMap_singleton]
  | cons q qs =>
    obtain ⟨more, hq⟩ := (hp q (List.mem_cons_of_mem p List.mem_cons_self)).exists_cons
    have hbytes : together (p :: q :: qs) = p.2 ++ 5 :: (more ++ together qs) := by
      rw [together, List.flatMap_cons, List.flatMap_cons, hq]
      rfl
    rw [hbytes, responseIn_append hP hhead]

theorem length_together_le {p : ℕ × List UInt8} {ps : List (ℕ × List UInt8)}
    (hp : AnswerTo P p.1 p.2) : messageHeaderSize ≤ (together (p :: ps)).length := by
  rw [together, List.flatMap_cons]
  exact Nat.le_trans hp.length_le (List.prefix_append _ _).length_le

/-! ## The chunks that are passed over -/

/-- What the loop leaves of the answers of the kernel is less than there was. -/
theorem length_left_lt {seq : UInt32} {answers left : List RecvFrom} {r : Received}
    (h : receive P seq answers = .ok (some (r, left))) : left.length < answers.length := by
  induction answers with
  | nil => cases h
  | cons a answers ih =>
    cases a with
    | failed =>
      cases h
      exact Nat.lt_succ_self _
    | data buf =>
      rcases Nat.eq_zero_or_pos buf.length with hzero | hpos
      · have hclosed : receive P seq (.data buf :: answers) = .ok (some (.systemError, answers)) :=
          if_pos hzero
        cases h.symm.trans hclosed
        exact Nat.lt_succ_self _
      rcases Nat.lt_or_ge buf.length messageHeaderSize with hshort | hlen
      · cases (receive_short hshort hpos seq answers).symm.trans h
      rw [receive_data hlen] at h
      split_ifs at h
      · exact Nat.lt_succ_of_lt (ih h)
      · cases h
        exact Nat.lt_succ_self _

/-- What a call that gets to the end of the loop shows. -/
theorem getHost_of_receive {c : LarsClient} {modid cmdid : Int32} {sock : ℕ}
    {answers left : List RecvFrom} {r : Received}
    (hsock : Agent.getHostSock modid cmdid = .ok sock)
    (hreceive : receive P c.mSeqid answers = .ok (some (r, left))) :
    ∃ shown c', getHost P c ⟨modid, cmdid, true, answers⟩ = .ok (shown, c') ∧
      shown.answer = some (afterLoop c.mSeqid modid cmdid r) ∧ shown.left = left := by
  rw [@getHost_sent P c ⟨modid, cmdid, true, answers⟩ sock hsock rfl, hreceive]
  exact ⟨_, _, rfl, rfl, rfl⟩

/-- If the loop gets behind the first of the answers that follow the chunks, it passes over all of
the chunks. -/
theorem passed_of_left {seq : UInt32} {chunks : List (List UInt8)}
    (hchunks : ∀ b ∈ chunks, messageHeaderSize ≤ b.length) {answers left : List RecvFrom}
    {r : Received} (h : receive P seq (chunks.map .data ++ answers) = .ok (some (r, left)))
    (hlt : left.length < answers.length) :
    (∀ b ∈ chunks, (responseIn P b).seq < seq) ∧
      receive P seq answers = .ok (some (r, left)) := by
  induction chunks with
  | nil => exact ⟨fun b hb => absurd hb List.not_mem_nil, h⟩
  | cons b chunks ih =>
    rw [List.map_cons, List.cons_append, receive_data (hchunks b List.mem_cons_self)] at h
    split_ifs at h with hseq
    · obtain ⟨hpassed, hreceive⟩ := ih (fun b hb => hchunks b (List.mem_cons_of_mem _ hb)) h
      exact ⟨List.forall_mem_cons.mpr ⟨hseq, hpassed⟩, hreceive⟩
    · -- it stops at `b`, and leaves all that is behind
      cases h
      rw [List.length_append] at hlt
      omega

/-- The chunks before the last are passed over, and the last is not and leads to the answer. -/
theorem discards_iff {c : LarsClient} {modid cmdid : Int32} {sock : ℕ}
    (hsock : Agent.getHostSock modid cmdid = .ok sock) {chunks : List (List UInt8)}
    (hchunks : ∀ b ∈ chunks, messageHeaderSize ≤ b.length) {last : List UInt8}
    (hlast : messageHeaderSize ≤ last.length) (buf : List UInt8) (rest : List RecvFrom) :
    Discards P c modid cmdid (chunks ++ [last]) buf rest ↔
      (∀ b ∈ chunks, (responseIn P b).seq < c.mSeqid) ∧ c.mSeqid ≤ (responseIn P last).seq ∧
        conclude c.mSeqid modid cmdid (responseIn P last) = answerOf (responseIn P buf) := by
  have hanswers : (chunks ++ [last]).map RecvFrom.data ++ rest =
      chunks.map .data ++ .data last :: rest := by
    rw [List.map_append, List.append_assoc]
    rfl
  unfold Discards
  rw [hanswers]
  constructor
  · rintro ⟨shown, c', hcall, hanswer, hleft⟩
    have hsent := @getHost_sent P c
      ⟨modid, cmdid, true, chunks.map .data ++ .data last :: rest⟩ sock hsock rfl
    rw [hcall] at hsent
    obtain ⟨received, hreceive, hshown⟩ := bind_eq_ok.mp hsent.symm
    cases received with
    | none =>
      cases hshown
      cases hanswer
    | some received =>
      obtain ⟨r, left⟩ := received
      cases hshown
      obtain rfl : left = rest := hleft
      obtain ⟨hpassed, hlastRead⟩ := passed_of_left hchunks hreceive (Nat.lt_succ_self _)
      rw [receive_data hlast] at hlastRead
      split_ifs at hlastRead with hseq
      · exact absurd (length_left_lt hlastRead) (Nat.lt_irrefl _)
      · cases hlastRead
        exact ⟨hpassed, UInt32.not_lt.mp hseq, Option.some.inj hanswer⟩
  · rintro ⟨hpassed, hstop, hanswer⟩
    have hstale : ∀ a ∈ chunks.map RecvFrom.data, Stale P c.mSeqid a :=
      List.forall_mem_map.mpr fun b hb => ⟨b, rfl, hchunks b hb, hpassed b hb⟩
    have hreceive : receive P c.mSeqid (chunks.map .data ++ .data last :: rest) =
        .ok (some (.response (responseIn P last), rest)) := by
      rw [receive_stale hstale, receive_data hlast, if_neg (UInt32.not_lt.mpr hstop)]
    obtain ⟨shown, c', hcall, hshown, hleft⟩ := getHost_of_receive hsock hreceive
    exact ⟨shown, c', hcall, hshown.trans (congrArg some hanswer), hleft⟩

/-- What is read of a chunk of late answers is the first of them. -/
theorem exists_first (hP : EndsAtZero P) {g : List (ℕ × List UInt8)} (hne : g ≠ [])
    (hg : ∀ p ∈ g, AnswerTo P p.1 p.2) :
    ∃ p, g.head? = some p ∧ messageHeaderSize ≤ (together g).length ∧
      (responseIn P (together g)).seq = UInt32.ofNat p.1 := by
  cases g with
  | nil => exact absurd rfl hne
  | cons p ps =>
    have hp := hg p List.mem_cons_self
    exact ⟨p, rfl, length_together_le hp, (responseIn_together hP hg).symm ▸ hp.seq_eq⟩

/-- The last chunk leads to what the current answer leads to if that is the first in it, or what is
passes for it. -/
theorem last_iff (hP : EndsAtZero P) {n : ℕ} {ahead : List (ℕ × List UInt8)}
    (hahead : ∀ p ∈ ahead, AnswerTo P p.1 p.2) {buf : List UInt8} (hbuf : AnswerTo P n buf) :
    UInt32.ofNat n ≤ (responseIn P (together (ahead ++ [(n, buf)]))).seq ∧
        conclude (UInt32.ofNat n) (responseIn P buf).modid (responseIn P buf).cmdid
          (responseIn P (together (ahead ++ [(n, buf)]))) = answerOf (responseIn P buf) ↔
      ∀ p ∈ ahead.head?,
        PassesFor P n (responseIn P buf).modid (responseIn P buf).cmdid buf p := by
  cases ahead with
  | nil =>
    have hsingle : together [(n, buf)] = buf := List.flatMap_singleton ..
    rw [List.nil_append, hsingle, hbuf.seq_eq, conclude, if_neg (by simp [hbuf.seq_eq])]
    exact iff_of_true ⟨UInt32.le_refl _, rfl⟩ fun p hp => absurd hp (Option.not_mem_none p)
  | cons p ps =>
    have hall : ∀ q ∈ p :: ps ++ [(n, buf)], AnswerTo P q.1 q.2 :=
      List.forall_mem_append.mpr ⟨hahead, List.forall_mem_singleton.mpr hbuf⟩
    have hseq : UInt32.ofNat n ≤ (responseIn P p.2).seq ↔
        n % UInt32.size ≤ p.1 % UInt32.size := by
      rw [(hahead p List.mem_cons_self).seq_eq, ← UInt32.not_lt, ofNat_lt_ofNat_iff, Nat.not_lt]
    rw [List.cons_append] at hall ⊢
    rw [responseIn_together hP hall, hseq]
    exact ⟨fun h q hq => Option.some.inj hq ▸ h, fun h => h p rfl⟩

/-- **Late answers**: on the socket chosen, answers to earlier calls are unread before the answer to
the current one, and every `recvfrom` returns some of them, `front` and then those `ahead` with the
current one. The call discards them and returns what is in its own if and only if the numbers of the
first of each that comes before, wrapped, are less than its own, and its own is the first of the
last or what is first there passes for it. -/
theorem getHost_discards_iff (P : Protobuf) (hP : EndsAtZero P) {earlier : List GetHostCall}
    {outs : List GetHostShown} {c : LarsClient}
    (hrun : run (getHost P) {} earlier = .ok (outs, c)) {modid cmdid : Int32} {sock : ℕ}
    (hsock : Agent.getHostSock modid cmdid = .ok sock)
    {front : List (List (ℕ × List UInt8))} {ahead : List (ℕ × List UInt8)}
    (hfront : ∀ g ∈ front, g ≠ [])
    (hlate : ∀ p ∈ front.flatten ++ ahead, p.1 < earlier.length ∧ AnswerTo P p.1 p.2)
    {buf : List UInt8} (hbuf : AnswerTo P earlier.length buf)
    (hmodid : (responseIn P buf).modid = modid) (hcmdid : (responseIn P buf).cmdid = cmdid)
    (rest : List RecvFrom) :
    Discards P c modid cmdid (front.map together ++ [together (ahead ++ [(earlier.length, buf)])])
        buf rest ↔
      (∀ g ∈ front, ∀ p ∈ g.head?, p.1 % UInt32.size < earlier.length % UInt32.size) ∧
        ∀ p ∈ ahead.head?, PassesFor P earlier.length modid cmdid buf p := by
  have hseqid : c.mSeqid = UInt32.ofNat earlier.length :=
    (mSeqid_of_run hrun).trans (UInt32.zero_add _)
  have hanswers : ∀ g ∈ front, ∀ p ∈ g, AnswerTo P p.1 p.2 := fun g hg p hp =>
    (hlate p (List.mem_append_left _ (List.mem_flatten_of_mem hg hp))).2
  have hahead : ∀ p ∈ ahead, AnswerTo P p.1 p.2 := fun p hp =>
    (hlate p (List.mem_append_right _ hp)).2
  have hlen : ∀ b ∈ front.map together, messageHeaderSize ≤ b.length := by
    refine List.forall_mem_map.mpr fun g hg => ?_
    obtain ⟨p, -, hlen, -⟩ := exists_first hP (hfront g hg) (hanswers g hg)
    exact hlen
  have hlast : messageHeaderSize ≤ (together (ahead ++ [(earlier.length, buf)])).length := by
    rw [together, List.flatMap_append, List.flatMap_singleton]
    exact Nat.le_trans hbuf.length_le (List.suffix_append _ _).length_le
  have hpassed : (∀ b ∈ front.map together, (responseIn P b).seq < c.mSeqid) ↔
      ∀ g ∈ front, ∀ p ∈ g.head?, p.1 % UInt32.size < earlier.length % UInt32.size := by
    rw [List.forall_mem_map, hseqid]
    refine forall₂_congr fun g hg => ?_
    obtain ⟨p, hp, -, hseq⟩ := exists_first hP (hfront g hg) (hanswers g hg)
    rw [hseq, ofNat_lt_ofNat_iff, hp]
    exact ⟨fun h q hq => Option.some.inj hq ▸ h, fun h => h p rfl⟩
  rw [discards_iff hsock hlen hlast, hpassed, hseqid, ← hmodid, ← hcmdid,
    last_iff hP hahead hbuf]

end GetHost

/-! ## The generated code -/

/-- The code generated for the answers, on bytes that are all there at once. -/
def generated : Protobuf where
  parseGetHostResponse := (GetHostResponse.code base128).parse

/-- No field of an answer repeats, and its fields can be read in front of other bytes. -/
theorem stable_fields : ∀ f ∈ (GetHostResponse.code base128).fields,
    f.repeated = false ∧ ∀ m, Stable (f.read m) := by
  have hvarint64 : Stable base128.readVarint64 := stable_readNumber 10 Nat.toUInt64
  have hvarint32 : Stable base128.readVarint32 := stable_readNumber 10 fun n => n.toUInt64.toUInt32
  change ∀ f ∈ GetHostResponse.fields base128, _
  simp only [GetHostResponse.fields, List.forall_mem_cons, List.not_mem_nil, false_imp_iff,
    implies_true, and_true]
  exact ⟨⟨rfl, stable_varint32Field hvarint32 1 8 _⟩, ⟨rfl, stable_varint64Field hvarint64 2 16 _⟩,
    ⟨rfl, stable_varint64Field hvarint64 3 24 _⟩, ⟨rfl, stable_varint64Field hvarint64 4 32 _⟩,
    ⟨rfl, stable_messageField (stable_parseMessage _) 5 42 _ _⟩⟩

/-- **The generated code ends at a tag with the number 0**. -/
theorem endsAtZero_generated : EndsAtZero generated := by
  intro body tag more hparsed htag
  have hbody : parseFromArray base128 (GetHostResponse.code base128).fields
      (GetHostResponse.code base128).clear body =
        (true, (generated.parseGetHostResponse body).2) := Prod.ext hparsed rfl
  have hnumber : ∀ f ∈ (GetHostResponse.code base128).fields, f.number ≠ 0 := by
    change ∀ f ∈ GetHostResponse.fields base128, _
    simp only [GetHostResponse.fields, List.forall_mem_cons, List.not_mem_nil, false_imp_iff,
      implies_true, and_true]
    decide
  have hleft := congrArg Prod.snd (parseFromArray_zero stable_fields hnumber hbody htag more)
  exact hleft

/-- What is written of an answer is an answer to the call that it has the number of. -/
theorem answerTo_answerBuf {n : ℕ} {resp : GetHostResponse} (hseq : resp.seq = UInt32.ofNat n)
    (hfits : resp.serialize.length ≤ messageMaxSize - messageHeaderSize) :
    AnswerTo generated n (answerBuf resp) ∧ responseIn generated (answerBuf resp) = resp := by
  have hparse : generated.parseGetHostResponse resp.serialize = (true, resp) := by
    exact Message.parse_serialize (C := GetHostResponse.code base128)
      (Nat.le_trans hfits (by decide))
  have hbody : (answerBuf resp).drop messageHeaderSize = resp.serialize :=
    List.drop_left' (Message.length_bytes _)
  have hhead := ofBytes_take_frame ⟨MessageId.getHostResponse.toInt, resp.serialize⟩ []
  rw [List.append_nil] at hhead
  have hresp : responseIn generated (answerBuf resp) = resp := by
    rw [responseIn, hbody, hparse]
  refine ⟨⟨?_, congrArg Message.id hhead, ?_, ?_, hresp.symm ▸ hseq⟩, hresp⟩
  · rw [answerBuf, length_frame]
    exact Nat.le_add_right _ _
  · rw [answerBuf, hhead]
    exact toInt_len_header hfits
  · rw [hbody, hparse]

/-! ## Runs of the client -/

/-- A call whose request is not sent. -/
def unsentCall : GetHostCall := ⟨1, 1, false, []⟩

/-- The answer to the call with the number `n`, for command 1 of module 1, which does not exist. -/
def answerNo (n : ℕ) : GetHostResponse :=
  { seq := UInt32.ofNat n, modid := 1, cmdid := 1, retcode := LarsRetCode.noexist.toInt }

/-- A client can make any number of calls. -/
theorem exists_run_unsent (P : Protobuf) (n : ℕ) (c : LarsClient) :
    ∃ outs c', run (getHost P) c (List.replicate n unsentCall) = .ok (outs, c') := by
  induction n generalizing c with
  | zero => exact ⟨[], c, rfl⟩
  | succ n ih =>
    obtain ⟨outs, c', hrun⟩ := ih { c with mSeqid := c.mSeqid + 1 }
    exact ⟨_, c', run_cons_eq_ok.mpr ⟨_, _, outs, rfl, hrun, rfl⟩⟩

theorem length_serialize_answerNo (n : ℕ) :
    (answerNo n).serialize.length ≤ messageMaxSize - messageHeaderSize := by
  have hseq := length_varintField_le 1 (answerNo n).seq.toUInt64
  have hmodid := length_varintField_le 2 (answerNo n).modid.toInt64.toUInt64
  have hcmdid := length_varintField_le 3 (answerNo n).cmdid.toInt64.toUInt64
  have hretcode := length_varintField_le 4 (answerNo n).retcode.toInt64.toUInt64
  have hhost : (answerNo n).host = none := rfl
  simp only [GetHostResponse.serialize, hhost, Option.elim_none, List.append_nil,
    List.length_append, messageMaxSize, messageHeaderSize]
  omega

theorem answerTo_answerNo (n : ℕ) : AnswerTo generated n (answerBuf (answerNo n)) :=
  (answerTo_answerBuf rfl (length_serialize_answerNo n)).1

/-- In the fourth call the answers to the first two are unread and come together, and the answer to
the third comes on its own. -/
theorem getHost_discards_late :
    Discards generated ⟨3⟩ 1 1
      [answerBuf (answerNo 0) ++ answerBuf (answerNo 1), answerBuf (answerNo 2),
        answerBuf (answerNo 3)] (answerBuf (answerNo 3)) [.failed] := by
  have hrun : run (getHost generated) {} [unsentCall, unsentCall, unsentCall] =
      .ok (List.replicate 3 ⟨none, some .systemError, []⟩, ⟨3⟩) := rfl
  have hresp : responseIn generated (answerBuf (answerNo 3)) = answerNo 3 :=
    (answerTo_answerBuf (n := 3) rfl (length_serialize_answerNo 3)).2
  have hlate : ∀ p ∈ [0, 1, 2].map fun n => (n, answerBuf (answerNo n)),
      p.1 < [unsentCall, unsentCall, unsentCall].length ∧ AnswerTo generated p.1 p.2 := by
    refine List.forall_mem_map.mpr fun n hn => ⟨?_, answerTo_answerNo n⟩
    revert n
    decide
  refine (@getHost_discards_iff generated endsAtZero_generated _ _ _ hrun _ _ _ rfl
    [[(0, answerBuf (answerNo 0)), (1, answerBuf (answerNo 1))], [(2, answerBuf (answerNo 2))]] []
    (by simp) hlate _ (answerTo_answerNo 3) (congrArg GetHostResponse.modid hresp)
    (congrArg GetHostResponse.cmdid hresp) [.failed]).mpr ⟨?_, fun p hp => by cases hp⟩
  simp only [List.forall_mem_cons, List.head?_cons, Option.mem_some_iff, forall_eq',
    List.not_mem_nil, false_imp_iff, implies_true, and_true]
  decide

/-- In the second call the answer to the first is unread, and the current one comes with it. -/
theorem not_discards_together :
    ¬ Discards generated ⟨1⟩ 1 1 [answerBuf (answerNo 0) ++ answerBuf (answerNo 1)]
      (answerBuf (answerNo 1)) [] := by
  intro h
  have hlate : ∀ p ∈ [(0, answerBuf (answerNo 0))], AnswerTo generated p.1 p.2 :=
    List.forall_mem_singleton.mpr (answerTo_answerNo 0)
  have hresp := (answerTo_answerBuf (n := 1) rfl (length_serialize_answerNo 1)).2
  have hread := ((@discards_iff generated ⟨1⟩ 1 1 _ rfl [] nofun _ (by decide) _ []).mp h).2
  have hpasses := (last_iff endsAtZero_generated hlate (answerTo_answerNo 1)).mp
  rw [hresp] at hpasses
  exact not_passesFor (by decide) (by decide) (hpasses hread _ rfl)

/-- The current answer comes in two pieces. -/
theorem not_discards_cut :
    ¬ Discards generated ⟨1⟩ 1 1
      [(answerBuf (answerNo 1)).take 10, (answerBuf (answerNo 1)).drop 10]
      (answerBuf (answerNo 1)) [] := by
  rintro ⟨shown, c', hcall, -, hleft⟩
  have hstop : receive generated 1 ([(answerBuf (answerNo 1)).take 10,
      (answerBuf (answerNo 1)).drop 10].map .data) =
        .ok (some (.response (responseIn generated ((answerBuf (answerNo 1)).take 10)),
          [.data ((answerBuf (answerNo 1)).drop 10)])) :=
    (receive_data (by decide) _ _).trans (if_neg (by decide))
  obtain ⟨shown', c'', hcall', -, hleft'⟩ :=
    @getHost_of_receive generated ⟨1⟩ 1 1 _ _ _ _ rfl hstop
  cases hcall.symm.trans hcall'
  cases hleft.symm.trans hleft'

/-- In the call after the counter has wrapped, the answer to the one before is unread, and is taken
for the current one though each comes on its own. In the second call, the answer to the first is
unread, and the current one is dropped with it if they come together; and if the current one comes
in two pieces, the first is taken for all of it. -/
theorem not_getHost_discards :
    (¬ ∀ (P : Protobuf) (earlier : List GetHostCall) (outs : List GetHostShown) (c : LarsClient)
      (modid cmdid : Int32) (sock : ℕ) (late : List (ℕ × List UInt8)) (buf : List UInt8)
      (rest : List RecvFrom),
      EndsAtZero P → run (getHost P) {} earlier = .ok (outs, c) →
      Agent.getHostSock modid cmdid = .ok sock →
      (∀ p ∈ late, p.1 < earlier.length ∧ AnswerTo P p.1 p.2) → AnswerTo P earlier.length buf →
      (responseIn P buf).modid = modid → (responseIn P buf).cmdid = cmdid →
      Discards P c modid cmdid (late.map Prod.snd ++ [buf]) buf rest) ∧
    ¬ Discards generated ⟨1⟩ 1 1 [answerBuf (answerNo 0) ++ answerBuf (answerNo 1)]
        (answerBuf (answerNo 1)) [] ∧
    ¬ Discards generated ⟨1⟩ 1 1
        [(answerBuf (answerNo 1)).take 10, (answerBuf (answerNo 1)).drop 10]
        (answerBuf (answerNo 1)) [] := by
  refine ⟨fun hall => ?_, not_discards_together, not_discards_cut⟩
  obtain ⟨outs, c, hrun⟩ := exists_run_unsent generated 4294967296 {}
  have hlen : (List.replicate 4294967296 unsentCall).length = 4294967296 :=
    List.length_replicate ..
  generalize List.replicate 4294967296 unsentCall = earlier at hrun hlen
  have hseqid : c.mSeqid = 0 := by
    rw [mSeqid_of_run hrun, hlen]
    rfl
  have hlate : ∀ p ∈ [(4294967295, answerBuf (answerNo 4294967295))],
      p.1 < earlier.length ∧ AnswerTo generated p.1 p.2 := by
    refine List.forall_mem_singleton.mpr ⟨?_, answerTo_answerNo 4294967295⟩
    rw [hlen]
    decide
  have hbuf : AnswerTo generated earlier.length (answerBuf (answerNo 0)) := by
    rw [hlen]
    exact (answerTo_answerBuf rfl (length_serialize_answerNo 0)).1
  have hresp := (answerTo_answerBuf (n := 0) rfl (length_serialize_answerNo 0)).2
  have h := hall generated earlier outs c 1 1 _ _ _ [] endsAtZero_generated hrun rfl hlate hbuf
    (congrArg GetHostResponse.modid hresp) (congrArg GetHostResponse.cmdid hresp)
  have hlens : ∀ b ∈ [answerBuf (answerNo 4294967295)], messageHeaderSize ≤ b.length :=
    List.forall_mem_singleton.mpr (answerTo_answerNo 4294967295).length_le
  have hseq := ((discards_iff rfl hlens hbuf.length_le _ []).mp h).1 _ List.mem_cons_self
  rw [hseqid] at hseq
  exact UInt32.not_lt_zero hseq

end Lars.Api
