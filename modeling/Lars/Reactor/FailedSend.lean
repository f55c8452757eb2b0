import Lars.Reactor.TcpClient
import Lars.Reactor.TcpConn

/-!
# Sends that fail

When there is no buffer for the body, `send` takes the header back with `pop`, which drops bytes at
the front of the output buffer while the header is at its end. What is pending survives only if the
buffer was empty, so that the header is all there is, or if the header itself was refused, so that
nothing is taken back.

* `failed_send_intact_iff`: for every output buffer that a connection or a client can come to have,
  exactly when a failed `send` leaves it intact.
-/

namespace Lars.Reactor

open Machine

namespace ReactorBuf

/-- An empty buffer has its head at the start of the block. -/
def Settled (r : Option IoBuf) : Prop := ∀ b, r = some b → b.length = 0 → b.head = 0

/-- The bytes pending and their place in the block are the same. -/
def Intact (r r' : Option IoBuf) : Prop := contents r' = contents r ∧ data r' = data r

/-- The buffers that survive a `send` failing: an empty one, and one with no room for the header
that is already of the largest size. -/
def Survives (r : Option IoBuf) : Prop :=
  length r = 0 ∨ ∃ b, r = some b ∧ b.cap = .m8M ∧ b.capacity < b.length + messageHeaderSize

/-! ## Empty buffers -/

@[simp] theorem settled_none : Settled none := fun _ h => nomatch h

theorem settled_some {b : IoBuf} : Settled (some b) ↔ (b.length = 0 → b.head = 0) :=
  ⟨fun h => h b rfl, fun h _ hb => Option.some.inj hb ▸ h⟩

theorem ensure_settled {r r' : Option IoBuf} (hr : Settled r) {n : ℕ} {p p' : BufPool}
    (h : ensure r n p = .ok (r', p')) : Settled r' := by
  rcases ensure_cases r n p with ⟨he, rfl⟩ | ⟨he, -⟩ | ⟨b, p₁, he, hb⟩ <;> cases he.symm.trans h
  · exact hr
  · rcases hb with rfl | ⟨-, -, hhead, -⟩
    · exact hr
    · exact settled_some.mpr fun _ => hhead

/-- A `write_data` that succeeds has added to the length. -/
theorem writeData_length {r r' : Option IoBuf} {l : List UInt8} {p p' : BufPool} {n : ℤ}
    (h : writeData r l p = .ok (n, r', p')) (hn : ¬ n < 0) :
    ∃ b', r' = some b' ∧ b'.length = length r + l.length := by
  have hsome : ∀ {b : IoBuf} {p : BufPool}, writeData (some b) l p = .ok (n, r', p') →
      ∃ b', r' = some b' ∧ b'.length = b.length + l.length := by
    intro b p h
    obtain ⟨b₁, p₁, hg, rfl⟩ := writeData_some h hn
    refine ⟨_, rfl, ?_⟩
    rcases grow_same_or_moved hg with ⟨-, rfl⟩ | ⟨-, -, -, -, hlen, -⟩
    · rfl
    · exact congrArg (· + l.length) hlen
  cases r with
  | some b => exact hsome h
  | none =>
    obtain ⟨⟨r₁, p₁⟩, he, h⟩ := bind_eq_ok.mp h
    rcases ensure_cases none l.length p with ⟨he', -⟩ | ⟨he', -⟩ | ⟨b, p₂, he', hb⟩ <;>
      cases he'.symm.trans he
    · cases h
      omega
    · obtain ⟨-, hlen, -, -⟩ := hb.resolve_left (by simp)
      obtain ⟨b', rfl, hlen'⟩ := hsome (b := b) h
      exact ⟨b', rfl, hlen'.trans (by rw [hlen]; rfl)⟩

theorem writeData_settled {r r' : Option IoBuf} (hr : Settled r) {l : List UInt8} {p p' : BufPool}
    {n : ℤ} (h : writeData r l p = .ok (n, r', p')) : Settled r' := by
  unfold writeData at h
  obtain ⟨⟨r₁, p₁⟩, he, h⟩ := bind_eq_ok.mp h
  have hr₁ := ensure_settled hr he
  cases r₁ with
  | none =>
    cases h
    exact settled_none
  | some b =>
    obtain ⟨⟨r₂, p₂⟩, hg, h⟩ := bind_eq_ok.mp h
    cases r₂ with
    | none =>
      cases h
      exact hr₁
    | some b' =>
      cases h
      refine settled_some.mpr fun hlen => ?_
      have hlen' : b'.length = 0 := Nat.eq_zero_of_add_eq_zero_right hlen
      have hhead : b'.head = 0 := by
        rcases grow_same_or_moved hg with ⟨-, rfl⟩ | ⟨-, -, -, hhead, -⟩
        · exact settled_some.mp hr₁ hlen'
        · exact hhead
      exact hhead

theorem pop_all (b : IoBuf) (p : BufPool) :
    pop (some b) b.length p = .ok (none, p.revert (b.pop b.length)) := by
  simp [pop]

theorem pop_settled {b : IoBuf} {r' : Option IoBuf} {len : ℕ} {p p' : BufPool}
    (h : pop (some b) len p = .ok (r', p')) : Settled r' := by
  unfold pop at h
  dsimp only at h
  split_ifs at h with hle hpos <;> cases h
  · exact settled_some.mpr fun hlen => absurd hlen (Nat.pos_iff_ne_zero.mp hpos)
  · exact settled_none

theorem sendFrame_settled {r r' : Option IoBuf} (hr : Settled r) {id : Int32} {body : List UInt8}
    {p p' : BufPool} {n : ℤ} (h : sendFrame r id body p = .ok (n, r', p')) : Settled r' := by
  cases sendsFrame h with
  | headerRefused => exact hr
  | bodyRefused _ _ _ _ hpop => exact pop_settled hpop
  | appended h₁ _ h₂ _ => exact writeData_settled (writeData_settled hr h₁) h₂

theorem head_writeRetry {b : IoBuf} (hb : b.head = 0) :
    ∀ answers : List WriteAnswer, (writeRetry b answers).buf.head = 0
  | [] => hb
  | .interrupted :: rest => head_writeRetry hb rest
  | .wouldBlock :: _ => hb
  | .failed :: _ => hb
  | .accepted _ :: _ => by
    simp only [writeRetry]
    split_ifs
    · exact IoBuf.head_adjust _
    · exact hb

theorem drain_settled {r : Option IoBuf} (hr : Settled r) {answers : List WriteAnswer}
    {o : Bool × Draining} (h : drain r answers = .ok o) : Settled o.2.buf := by
  have hwrite : ∀ (s : Draining) (w : Written), write2fd s.buf s.answers = .ok w →
      Settled (some w.buf) := by
    intro s w hw
    unfold write2fd at hw
    split at hw
    · cases hw
    · split_ifs at hw with hhead
      cases hw
      exact settled_some.mpr fun _ => head_writeRetry hhead _
  refine loop_invariant drainBody_decreases (I := fun s => Settled s.buf)
    (Q := fun o => Settled o.2.buf) ?_ ?_ hr h
  · intro s s' hs hb
    unfold drainBody at hb
    split_ifs at hb
    · obtain ⟨w, hw, hb⟩ := bind_eq_ok.mp hb
      split_ifs at hb <;> cases hb
      exact hwrite s w hw
    · cases hb
  · intro s o hs hb
    unfold drainBody at hb
    split_ifs at hb
    · obtain ⟨w, hw, hb⟩ := bind_eq_ok.mp hb
      split_ifs at hb <;> cases hb <;> exact hwrite s w hw
    · cases hb
      exact hs

/-! ## Taking the header back -/

/-- A header that is refused is refused by a full buffer of the largest size. -/
theorem survives_of_header_refused {r r' : Option IoBuf} {hdr : List UInt8}
    (hlen : hdr.length = messageHeaderSize) {p p' : BufPool} {n : ℤ}
    (h : writeData r hdr p = .ok (n, r', p')) (hn : n < 0) : Survives r := by
  unfold writeData at h
  rw [hlen] at h
  rcases ensure_cases r messageHeaderSize p with ⟨he, rfl⟩ | ⟨he, -⟩ | ⟨b, p₁, he, hb⟩
  · -- a header fits every size
    rcases p.allocBuf_cases messageHeaderSize with ⟨ha, hi⟩ | ⟨ha, -⟩ | ⟨b, p₁, ha, -⟩
    · exact absurd hi (by decide)
    · cases ha.symm.trans he
    · cases ha.symm.trans he
  · rw [he] at h
    cases h
  · rw [he, ok_bind] at h
    dsimp only at h
    rcases grow_cases b messageHeaderSize p₁ with
      ⟨hg, hlt, hi⟩ | ⟨hg, -⟩ | ⟨hg, -⟩ | ⟨b', p₂, hg, -⟩ <;> rw [hg] at h
    · rcases hb with rfl | ⟨rfl, hlen₀, -, hcap⟩
      · refine Or.inr ⟨b, rfl, ?_, hlt⟩
        rw [BufPool.index_eq_none_iff] at hi
        unfold IoBuf.capacity at hi
        generalize b.cap = cap at hi ⊢
        cases cap <;> simp [MemCap.size, messageHeaderSize] at hi ⊢
      · exact absurd hlt (by omega)
    · cases h
    · cases h
    · cases h
      omega

/-- The header was all there was. -/
theorem intact_popped_of_empty {r r' : Option IoBuf} (hr : Settled r) (hzero : length r = 0)
    {b : IoBuf} (hlen : b.length = messageHeaderSize) {p p' : BufPool}
    (hpop : pop (some b) messageHeaderSize p = .ok (r', p')) : Intact r r' := by
  obtain rfl : r' = none := by
    rw [← hlen, pop_all] at hpop
    cases hpop
    rfl
  refine ⟨(List.eq_nil_of_length_eq_zero ?_).symm, ?_⟩
  · rw [length_contents, hzero]
  · cases r with
    | none => rfl
    | some b₀ => rw [data, Option.elim_none, data, Option.elim_some, hr b₀ rfl hzero]

/-- Bytes were there before the header. Where they stay, those at the front are lost; where they are
moved, there was room behind them for as many bytes as `pop` then drops, and they do not end up at
the same place in the block. -/
theorem intact_popped_iff_of_pos {b b₀ : IoBuf} {r' : Option IoBuf} {hdr : List UInt8}
    (hpos : b.length ≠ 0) {p p' p₁ p₂ : BufPool}
    (hg : grow b messageHeaderSize p = .ok (some b₀, p₁))
    (hlen : (b₀.append hdr).length = b.length + messageHeaderSize)
    (hpop : pop (some (b₀.append hdr)) messageHeaderSize p₂ = .ok (r', p')) :
    Intact (some b) r' ↔ Survives (some b) := by
  have hle : messageHeaderSize ≤ (b₀.append hdr).length := by omega
  obtain ⟨r₄, p₄, hpop', hc, hr₄⟩ := pop_eq hle p₂
  obtain ⟨rfl, rfl⟩ := Prod.mk.inj (Except.ok.inj (hpop.symm.trans hpop'))
  have hsome : r' = some ((b₀.append hdr).pop messageHeaderSize) := by
    refine hr₄.resolve_left fun hnone => ?_
    have hlen' := congrArg List.length hc
    rw [hnone, List.length_drop, IoBuf.length_contents, hlen] at hlen'
    change 0 = b.length + messageHeaderSize - messageHeaderSize at hlen'
    omega
  have hdata : data r' = b₀.head + messageHeaderSize := by rw [hsome]; rfl
  have hmoved : Intact (some b) r' → b.head = b₀.head + messageHeaderSize := fun hi =>
    hi.2.symm.trans hdata
  refine iff_of_false (fun hi => ?_) ?_
  · have hhead := hmoved hi
    rcases grow_same_or_moved hg with ⟨-, rfl⟩ | ⟨hfull, hwithin, -⟩
    · simp [messageHeaderSize] at hhead
    · omega
  · rintro (hzero | ⟨b', hb', hcap, hfull⟩)
    · exact hpos hzero
    · cases hb'
      rcases grow_same_or_moved hg with ⟨hroom, -⟩ | ⟨-, -, hsize, -⟩
      · omega
      · unfold IoBuf.capacity at hsize
        rw [hcap] at hsize
        simp [MemCap.size, messageHeaderSize] at hsize

/-- **Taking the header back**: when exactly the output buffer is as it was. -/
theorem sendFrame_intact_iff {r r' : Option IoBuf} (hr : Settled r) {id : Int32}
    {body : List UInt8} {p p' : BufPool} {n : ℤ} (h : sendFrame r id body p = .ok (n, r', p'))
    (hn : n < 0) : Intact r r' ↔ Survives r := by
  have hhdr : (header id body).bytes.length = messageHeaderSize := Message.length_bytes _
  cases sendsFrame h with
  | headerRefused h₁ hneg => exact iff_of_true ⟨rfl, rfl⟩ (survives_of_header_refused hhdr h₁ hneg)
  | appended => exact absurd hn (by decide)
  | bodyRefused h₁ hneg _ _ hpop =>
    obtain ⟨b₁, hb₁, hlen⟩ := writeData_length h₁ hneg
    cases hb₁
    rw [hhdr] at hlen
    by_cases hzero : length r = 0
    · rw [hzero, Nat.zero_add] at hlen
      exact iff_of_true (intact_popped_of_empty hr hzero hlen hpop) (Or.inl hzero)
    · obtain ⟨b, rfl⟩ : ∃ b, r = some b :=
        Option.ne_none_iff_exists'.mp fun h => hzero (h ▸ rfl)
      obtain ⟨b₀, p₀, hg, hb₁⟩ := writeData_some h₁ hneg
      cases hb₁
      rw [hhdr] at hg
      exact intact_popped_iff_of_pos hzero hg hlen hpop

end ReactorBuf

/-- The largest buffer without room for a header refuses it. -/
theorem ReactorBuf.sendFrame_of_full {b : IoBuf} (id : Int32) (body : List UInt8)
    (hcap : b.cap = .m8M) (hfull : b.capacity < b.length + messageHeaderSize) (p : BufPool) :
    sendFrame (some b) id body p = .ok (-1, some b, p) := by
  have hhdr : (header id body).bytes.length = messageHeaderSize := Message.length_bytes _
  have hnone : BufPool.index (b.capacity + messageHeaderSize) = none := by
    rw [IoBuf.capacity, hcap]
    decide
  have hgrow : grow b messageHeaderSize p = .ok (none, p) := by
    rw [grow, if_pos (by omega), BufPool.allocBuf_of_index_eq_none hnone]
    rfl
  rw [sendFrame, writeData, ensure, ok_bind]
  dsimp only
  rw [hhdr, hgrow]
  rfl

/-- The first frame of a body that does not fit a buffer of 4K behind the header: it is moved to one
of the size `c`. -/
theorem ReactorBuf.sendFrame_moved (id : Int32) (body : List UInt8) {c : MemCap}
    (hlarge : MemCap.m4K.size < messageHeaderSize + body.length) (hc : c ≠ .m4K)
    (hindex : BufPool.index (MemCap.m4K.size + body.length) = some c) :
    ∃ b p, sendFrame none id body (.ofCounts fun _ => 2) = .ok (0, some b, p) ∧ b.cap = c ∧
      b.length = messageHeaderSize + body.length := by
  have hhdr : (header id body).bytes.length = 8 := Message.length_bytes _
  obtain ⟨p₁, halloc, hpool⟩ := BufPool.allocBuf_of_cons (N := 8) (p := .ofCounts fun _ => 2)
    (c := .m4K) rfl rfl
  obtain ⟨b₁, hb₁⟩ : ∃ b₁, b₁ = (IoBuf.new .m4K fun _ => 0).append (header id body).bytes :=
    ⟨_, rfl⟩
  have hcap : b₁.capacity = MemCap.m4K.size := by rw [hb₁]; rfl
  have hlen : b₁.length = messageHeaderSize := by rw [hb₁]; rfl
  have hhead : b₁.head = 0 := by rw [hb₁]; rfl
  have h₁ : writeData none (header id body).bytes (.ofCounts fun _ => 2) =
      .ok (8, some b₁, p₁) := by
    have hensure : ensure none 8 (.ofCounts fun _ => 2) =
        .ok (some (IoBuf.new .m4K fun _ => 0), p₁) := halloc
    rw [writeData, hhdr, hensure, hb₁]
    rfl
  have hfree : p₁.pool c = List.replicate 2 (IoBuf.new c fun _ => 0) := by
    rw [hpool, Function.update_of_ne hc]
    rfl
  obtain ⟨p₂, halloc', -⟩ := BufPool.allocBuf_of_cons (hcap ▸ hindex) hfree
  have hwithin : ¬ b₁.capacity < b₁.head + b₁.length := by
    rw [hcap, hhead, hlen]
    decide
  have hgrow : grow b₁ body.length p₁ =
      .ok (some ((IoBuf.new c fun _ => 0).copy b₁), p₂.revert b₁) := by
    rw [grow, if_pos (by omega), halloc', ok_bind]
    exact if_neg hwithin
  refine ⟨((IoBuf.new c fun _ => 0).copy b₁).append body, p₂.revert b₁, ?_, rfl,
    congrArg (· + body.length) hlen⟩
  have h₂ : writeData (some b₁) body p₁ = .ok (body.length,
      some (((IoBuf.new c fun _ => 0).copy b₁).append body), p₂.revert b₁) := by
    rw [writeData, ensure, ok_bind]
    dsimp only
    rw [hgrow]
    rfl
  rw [sendFrame, h₁, ok_bind]
  dsimp only
  rw [if_neg (by decide), h₂, ok_bind]
  exact if_neg (by omega)

/-- A body that no buffer is large enough for makes `send` fail after the header is written. -/
theorem ReactorBuf.sendFrame_refused {r : Option IoBuf} {id : Int32} {body : List UInt8}
    {p : BufPool} {n : ℤ} (h : output (writeData r (header id body).bytes p) = some n)
    (hn : ¬ n < 0) (hbody : MemCap.m8M.size < body.length) :
    ∃ r' p', sendFrame r id body p = .ok (-1, r', p') := by
  obtain ⟨⟨r₁, p₁⟩, h₁⟩ := output_eq_some.mp h
  obtain ⟨b₁, rfl, hlen⟩ := writeData_length h₁ hn
  rw [Message.length_bytes] at hlen
  have hcap : b₁.capacity ≤ MemCap.m8M.size := MemCap.size_le b₁.cap
  have hfull : (b₁.capacity : ℤ) - b₁.length < body.length := by omega
  have hnone : BufPool.index (b₁.capacity + body.length) = none :=
    BufPool.index_eq_none_iff.mpr (Or.inr (by omega))
  have h₂ : writeData (some b₁) body p₁ = .ok (-1, some b₁, p₁) := by
    unfold writeData ensure grow
    rw [ok_bind]
    dsimp only
    rw [if_pos hfull, BufPool.allocBuf_of_index_eq_none hnone]
    rfl
  have hroom : messageHeaderSize ≤ b₁.length := by omega
  obtain ⟨r', p', hpop, -, -⟩ := pop_eq hroom p₁
  refine ⟨r', p', ?_⟩
  unfold sendFrame
  rw [h₁, ok_bind]
  dsimp only
  rw [if_neg hn, h₂, ok_bind]
  dsimp only
  rw [if_pos (by decide), hpop]
  rfl

/-! ## The output buffers that can occur -/

namespace Endpoint

variable {κ ω : Type} {K : Kind κ ω}

theorem send_settled {e e' : Endpoint κ ω} {id : Int32} {body : List UInt8} {ctl : Bool} {ret : ℤ}
    (he : ReactorBuf.Settled e.obuf) (h : send K id body ctl e = .ok (ret, e')) :
    ReactorBuf.Settled e'.obuf := by
  cases sends h with
  | barred => exact he
  | refused _ hsend => exact ReactorBuf.sendFrame_settled he hsend
  | first _ hsend => exact ReactorBuf.sendFrame_settled he hsend
  | behind _ hsend => exact ReactorBuf.sendFrame_settled he hsend

theorem runScript_settled {acts : List UserAct} {e e' : Endpoint κ ω}
    (he : ReactorBuf.Settled e.obuf) (h : runScript K acts e = .ok e') :
    ReactorBuf.Settled e'.obuf :=
  runScript_keeps (C := fun _ => True) (P := fun e => ReactorBuf.Settled e.obuf)
    (fun _ _ _ he => he) (fun _ _ _ _ _ _ _ => send_settled) (fun _ _ _ _ => trivial) he h

theorem handleWrite_settled {close : Endpoint κ ω → Except Halt (Endpoint κ ω)} {ctl : Bool}
    {answers : List WriteAnswer} {e e' : Endpoint κ ω} {l : List UInt8}
    (hclose : ∀ e e', ReactorBuf.Settled e.obuf → close e = .ok e' → ReactorBuf.Settled e'.obuf)
    (he : ReactorBuf.Settled e.obuf) (h : handleWrite close ctl answers e = .ok (l, e')) :
    ReactorBuf.Settled e'.obuf := by
  obtain ⟨failed, d, e₁, hdrain, hc, hlast⟩ := handleWrite_cases h
  have hd := ReactorBuf.drain_settled he hdrain
  have he₁ : ReactorBuf.Settled e₁.obuf := by
    rcases hc with ⟨-, hc⟩ | ⟨-, rfl⟩
    · exact hclose _ _ hd hc
    · exact hd
  rcases hlast with rfl | rfl <;> exact he₁

theorem send_refused (K : Kind κ ω) (id : Int32) (body : List UInt8) (ctl : Bool)
    {e : Endpoint κ ω} {n : ℤ} (hmay : K.maySend e.own = true)
    (h : output (ReactorBuf.writeData e.obuf (header id body).bytes e.pool) = some n) (hn : ¬ n < 0)
    (hbody : MemCap.m8M.size < body.length) : ∃ e', send K id body ctl e = .ok (-1, e') := by
  obtain ⟨r', p', hsend⟩ := ReactorBuf.sendFrame_refused h hn hbody
  refine ⟨{ e with obuf := r', pool := p' }, ?_⟩
  unfold send
  rw [hmay]
  simp only [Bool.not_true, Bool.false_eq_true, if_false, hsend, ok_bind]
  rfl

/-- A `send` that fails for want of a buffer has failed in `sendFrame`. -/
theorem send_intact_iff {e e' : Endpoint κ ω} {id : Int32} {body : List UInt8} {ctl : Bool}
    (hmay : K.maySend e.own = true) (he : ReactorBuf.Settled e.obuf)
    (h : send K id body ctl e = .ok (-1, e')) :
    ReactorBuf.Intact e.obuf e'.obuf ↔ ReactorBuf.Survives e.obuf := by
  cases sends h with
  | barred hmay' => cases hmay.symm.trans hmay'
  | refused _ hsend hn => exact ReactorBuf.sendFrame_intact_iff he hsend hn

end Endpoint

namespace TcpConn

theorem keeps_settled (ctl : Bool) :
    Endpoint.Keeps kind (handleClose ctl) (fun _ => True) fun c => ReactorBuf.Settled c.obuf where
  input _ _ _ hc := hc
  send _ _ _ _ _ _ _ := Endpoint.send_settled
  close c c' hc h := by
    obtain rfl : close ctl c = c' := Except.ok.inj h
    unfold close
    split_ifs
    · exact hc
    · exact ReactorBuf.settled_none

theorem step_settled {c c' : TcpConn} {ev : Event} {o : Shown} (hc : ReactorBuf.Settled c.obuf)
    (h : step c ev = .ok (o, c')) : ReactorBuf.Settled c'.obuf := by
  obtain ⟨k, hs, r, -, h⟩ | ⟨answers, l, -, h⟩ | ⟨id, body, ret, -, h⟩ := step_cases h
  · exact (keeps_settled ev.ctl).handleRead (fun _ _ _ _ _ => trivial)
      (e := { c with pool := ev.pool }) hc h
  · exact Endpoint.handleWrite_settled (keeps_settled ev.ctl).close
      (e := { c with pool := ev.pool }) hc h
  · exact Endpoint.send_settled (e := { c with pool := ev.pool }) hc h

/-- A `send` that is not refused is a step. -/
theorem step_send {c : TcpConn} {id : Int32} {body : List UInt8} {pool pool' : BufPool} {n : ℤ}
    {r : Option IoBuf} (ctl : Bool) (h : ReactorBuf.sendFrame c.obuf id body pool = .ok (n, r, pool'))
    (hn : ¬ n < 0) : ∃ c', step c ⟨.send id body, pool, ctl⟩ = .ok (.sent 0, c') ∧ c'.obuf = r := by
  unfold step send Endpoint.send
  simp only [kind, h, hn, Bool.not_true, Bool.false_eq_true, if_false, ok_bind]
  split_ifs <;> exact ⟨_, rfl, rfl⟩

end TcpConn

namespace TcpClient

theorem established_settled {env : ClientEnv} {c c' : TcpClient} (hc : ReactorBuf.Settled c.obuf)
    (h : established env c = .ok c') : ReactorBuf.Settled c'.obuf :=
  Endpoint.runScript_settled (by exact hc) h

theorem doConnect_settled {env : ClientEnv} {c c' : TcpClient} (hc : ReactorBuf.Settled c.obuf)
    (h : doConnect env c = .ok c') : ReactorBuf.Settled c'.obuf := by
  unfold doConnect at h
  split_ifs at h
  · exact established_settled hc h
  · cases h
    exact hc
  · cases h
    exact hc

theorem keeps_settled (env : ClientEnv) :
    Endpoint.Keeps kind (cleanConn env) (fun _ => True) fun c => ReactorBuf.Settled c.obuf where
  input _ _ _ hc := hc
  send _ _ _ _ _ _ _ := Endpoint.send_settled
  close c c' hc h := by
    obtain ⟨c₁, hrun, h⟩ := bind_eq_ok.mp h
    exact doConnect_settled (Endpoint.runScript_settled ReactorBuf.settled_none hrun) h

theorem step_settled {c c' : TcpClient} {ev : Event} {o : Shown} (hc : ReactorBuf.Settled c.obuf)
    (h : step c ev = .ok (o, c')) : ReactorBuf.Settled c'.obuf := by
  obtain ⟨soError, -, h⟩ | ⟨probe, k, hs, -, rfl | ⟨r, h⟩⟩ | ⟨answers, l, -, h⟩ |
    ⟨id, body, ret, -, h⟩ := step_cases h
  · exact established_settled (by exact hc) h
  · exact hc
  · exact (keeps_settled ev.env).handleRead (fun _ _ _ _ _ => trivial)
      (e := { c with pool := ev.pool }) hc h
  · exact Endpoint.handleWrite_settled (keeps_settled ev.env).close
      (e := { c with pool := ev.pool }) hc h
  · exact Endpoint.send_settled (e := { c with pool := ev.pool }) hc h

end TcpClient

/-- **Failed sends.** For every output buffer that a run of calls can give a connection or a client,
starting without one, and whatever the pool: a `send` that returns `-1` for want of a buffer leaves
the bytes pending and their place as they were if and only if the buffer `Survives`. -/
theorem failed_send_intact_iff (id : Int32) (body : List UInt8) (ctl : Bool) (pool : BufPool) :
    (∀ (c₀ c c' : TcpConn) (es : List TcpConn.Event) (outs : List Shown),
      c₀.obuf = none → run TcpConn.step c₀ es = .ok (outs, c) →
      TcpConn.send id body ctl { c with pool := pool } = .ok (-1, c') →
      (ReactorBuf.Intact c.obuf c'.obuf ↔ ReactorBuf.Survives c.obuf)) ∧
    ∀ (c₀ c c' : TcpClient) (es : List TcpClient.Event) (outs : List Shown),
      c₀.obuf = none → run TcpClient.step c₀ es = .ok (outs, c) → c.own.connected = true →
      TcpClient.send id body ctl { c with pool := pool } = .ok (-1, c') →
      (ReactorBuf.Intact c.obuf c'.obuf ↔ ReactorBuf.Survives c.obuf) := by
  refine ⟨fun c₀ c c' es outs hobuf hrun hsend => ?_,
    fun c₀ c c' es outs hobuf hrun hconn hsend => ?_⟩
  · have hc : ReactorBuf.Settled c.obuf :=
      run_invariant (P := fun c : TcpConn => ReactorBuf.Settled c.obuf)
        (fun _ _ _ _ => TcpConn.step_settled) (hobuf ▸ ReactorBuf.settled_none) hrun
    exact Endpoint.send_intact_iff (e := { c with pool := pool }) rfl hc hsend
  · have hc : ReactorBuf.Settled c.obuf :=
      run_invariant (P := fun c : TcpClient => ReactorBuf.Settled c.obuf)
        (fun _ _ _ _ => TcpClient.step_settled) (hobuf ▸ ReactorBuf.settled_none) hrun
    exact Endpoint.send_intact_iff (e := { c with pool := pool }) hconn hc hsend

/-- Two sends fill the largest buffer. -/
theorem exists_run_full : ∃ c b es outs,
    run TcpConn.step (.new 1 5 {} (fun _ => none) (.ofCounts fun _ => 2)) es = .ok (outs, c) ∧
      c.obuf = some b ∧ b.cap = .m8M ∧ b.length = 8388608 := by
  obtain ⟨body₁, hbody₁⟩ : ∃ body : List UInt8, body.length = 8384512 :=
    ⟨List.replicate 8384512 0, List.length_replicate ..⟩
  obtain ⟨body₂, hbody₂⟩ : ∃ body : List UInt8, body.length = 4080 :=
    ⟨List.replicate 4080 0, List.length_replicate ..⟩
  obtain ⟨b₁, p₁, hsend₁, hcap₁, hlen₁⟩ := ReactorBuf.sendFrame_moved 1 body₁
    (c := .m8M) (by rw [hbody₁]; decide) (by decide) (by rw [hbody₁]; rfl)
  have hroom : b₁.length + messageHeaderSize + body₂.length ≤ b₁.capacity := by
    rw [hlen₁, hbody₁, hbody₂, IoBuf.capacity, hcap₁]
    decide
  have hsend₂ := ReactorBuf.sendFrame_of_room 2 hroom (.ofCounts fun _ => 2)
  obtain ⟨c₁, hc₁, hobuf₁⟩ := TcpConn.step_send (c := .new 1 5 {} (fun _ => none)
    (.ofCounts fun _ => 2)) true hsend₁ (by decide)
  rw [← hobuf₁] at hsend₂
  obtain ⟨c₂, hc₂, hobuf₂⟩ := TcpConn.step_send true hsend₂ (by decide)
  have hrun := run_cons_eq_ok.mpr ⟨_, c₁, _, hc₁,
    run_cons_eq_ok.mpr ⟨_, c₂, [], hc₂, run_nil c₂, rfl⟩, rfl⟩
  refine ⟨c₂, _, _, _, hrun, hobuf₂, hcap₁, ?_⟩
  change b₁.length + (header 2 body₂).bytes.length + body₂.length = 8388608
  rw [hlen₁, hbody₁, hbody₂, Message.length_bytes]
  rfl

/-- A header that the largest buffer has no room for does no harm. -/
theorem failed_send_intact_full : ∃ c c' es outs,
    run TcpConn.step (.new 1 5 {} (fun _ => none) (.ofCounts fun _ => 2)) es = .ok (outs, c) ∧
      ReactorBuf.length c.obuf = 8388608 ∧
      TcpConn.send 3 [104, 105] true { c with pool := .ofCounts fun _ => 2 } = .ok (-1, c') ∧
      ReactorBuf.Intact c.obuf c'.obuf := by
  obtain ⟨c, b, es, outs, hrun, hobuf, hcap, hlen⟩ := exists_run_full
  have hfull : b.capacity < b.length + messageHeaderSize := by
    rw [IoBuf.capacity, hcap, hlen]
    decide
  have hsend : TcpConn.send 3 [104, 105] true { c with pool := .ofCounts fun _ => 2 } =
      .ok (-1, { c with pool := .ofCounts fun _ => 2 }) := by
    simp [TcpConn.send, Endpoint.send, TcpConn.kind, hobuf,
      ReactorBuf.sendFrame_of_full 3 [104, 105] hcap hfull]
  refine ⟨c, _, es, outs, hrun, by rw [hobuf]; exact hlen, hsend, ?_⟩
  exact ((failed_send_intact_iff 3 [104, 105] true (.ofCounts fun _ => 2)).1 _ c _ es outs rfl hrun
    hsend).mpr (Or.inr ⟨b, hobuf, hcap, hfull⟩)

/-- Behind a frame that is pending it does. -/
theorem failed_send_not_intact :
    ¬ ∀ (c₀ c c' : TcpConn) (es : List TcpConn.Event) (outs : List Shown) (pool : BufPool)
      (id : Int32) (body : List UInt8) (ctl : Bool),
      c₀.obuf = none → run TcpConn.step c₀ es = .ok (outs, c) →
      TcpConn.send id body ctl { c with pool := pool } = .ok (-1, c') →
      ReactorBuf.Intact c.obuf c'.obuf := by
  intro hall
  obtain ⟨c, hc⟩ : ∃ c, c = after TcpConn.step (.new 1 5 {} (fun _ => none) (.ofCounts fun _ => 2))
    ⟨.send 1 [104, 105], .ofCounts fun _ => 2, true⟩ := ⟨_, rfl⟩
  have hpending : c.obuf.map (fun b => (b.capacity, b.length)) = some (4096, 10) := by
    rw [hc]
    decide
  obtain ⟨body, hbody⟩ : ∃ body : List UInt8, MemCap.m8M.size < body.length :=
    ⟨List.replicate 8388609 0, by rw [List.length_replicate]; decide⟩
  obtain ⟨c', hsend⟩ := Endpoint.send_refused TcpConn.kind 1 body true
    (e := { c with pool := .ofCounts fun _ => 2 }) (n := 8) rfl (by rw [hc]; rfl) (by decide) hbody
  have hintact := hall (.new 1 5 {} (fun _ => none) (.ofCounts fun _ => 2)) c c'
    [⟨.send 1 [104, 105], .ofCounts fun _ => 2, true⟩] [.sent 0] (.ofCounts fun _ => 2) 1 body true
    rfl (by rw [hc]; rfl) hsend
  have hsettled : ReactorBuf.Settled c.obuf := by
    rintro b hb hlen
    rw [hb, Option.map_some, Option.some.injEq, Prod.mk.injEq, hlen] at hpending
    exact absurd hpending.2 (by decide)
  rcases (Endpoint.send_intact_iff (e := { c with pool := .ofCounts fun _ => 2 }) rfl hsettled
    hsend).mp hintact with hlen | ⟨b, hb, -, hfull⟩
  · cases hobuf : c.obuf with
    | none => simp [hobuf] at hpending
    | some b =>
      rw [hobuf, Option.map_some, Option.some.injEq, Prod.mk.injEq] at hpending
      have : b.length = 0 := by rwa [hobuf] at hlen
      omega
  · have hb' : c.obuf = some b := hb
    rw [hb', Option.map_some, Option.some.injEq, Prod.mk.injEq] at hpending
    simp only [messageHeaderSize] at hfull
    omega

end Lars.Reactor
