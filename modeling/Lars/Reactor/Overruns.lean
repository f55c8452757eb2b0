import Lars.Reactor.BufRefine
import Lars.Reactor.BufRoom

/-!
# Conservation and overruns

The buffers are conserved as long as no call goes past the end of a block. `read_data` does when
`FIONREAD` has reported nothing and more bytes come than there is room for; `write_data` does when it
moves a buffer whose bytes run past the end of their block, as they may when bytes have been popped
at the front and others appended.

* `conserved_of_within`: in every run of calls none of which does, each buffer made is in exactly one
  place in every state, and the process can only end by `exit` and by the `assert`s of the calls.
-/

namespace Lars.Reactor

open Machine

/-- The process ends by `exit` or by a failed `assert`. -/
def Halt.Orderly (t : Halt) : Prop := t = .exit ∨ t = .abort

namespace ReactorBuf

/-! ## One call on values -/

/-- The length of the buffer is no more than its capacity. -/
def Sized (r : Option IoBuf) : Prop := ∀ b, r = some b → b.length ≤ b.capacity

/-- When `FIONREAD` has reported nothing, there is room for the bytes that come. -/
def ReadWithin (r : Option IoBuf) (k : KernelRead) : Prop :=
  k.fionread = some 0 → ∀ b, r = some b → b.length + (bytesRead k).length ≤ b.capacity

/-- If the buffer has to be moved for `n` bytes, its own are within its block. -/
def GrowWithin (r : Option IoBuf) (n : ℕ) : Prop :=
  ∀ b, r = some b → b.capacity < b.length + n → b.head + b.length ≤ b.capacity

theorem readInto_orderly {c : ReadCall} {reads : List ReadAnswer}
    (hroom : ∀ l, readRetry c.count reads = some l → c.buf.length + l.length ≤ c.buf.capacity)
    (needRead : ℕ) (p : BufPool) :
    Ends (fun _ => True) Halt.Orderly (readInto c needRead reads p) := by
  unfold readInto
  cases hgot : readRetry c.count reads with
  | none => exact ends_ok trivial
  | some l =>
    dsimp only
    rw [if_neg (hroom l hgot).not_gt]
    split_ifs
    · exact ends_error (Or.inr rfl)
    · exact ends_ok trivial
    · exact ends_ok trivial

/-- The bytes that a `read` gets fit into the buffer that it is called on. -/
theorem length_le_of_readWithin {r : Option IoBuf} (hr : Front r) {k : KernelRead}
    (hk : ReadWithin r k) {needRead : ℕ} (hfion : k.fionread = some needRead) {b : IoBuf}
    {p p' : BufPool} {count : ℕ} (h : readCall r needRead p = .ok (some ⟨b, count⟩, p'))
    (hcount : count = if needRead = 0 then MemCap.m4K.size else needRead)
    (hc : b.contents = contents r) (hroom : b.length + needRead ≤ b.capacity) {l : List UInt8}
    (hl : readRetry count k.reads = some l) : b.length + l.length ≤ b.capacity := by
  have hle := length_readRetry_le k.reads hl
  by_cases hzero : needRead = 0
  · subst hzero
    rw [if_pos rfl] at hcount
    cases r with
    | none =>
      have hlen : b.length = 0 := by
        rw [← b.length_contents, hc]
        rfl
      have hcap : MemCap.m4K.size ≤ b.capacity := MemCap.le_size b.cap
      omega
    | some b₀ =>
      cases (readCall_zero (front_some.mp hr) p).symm.trans h
      have hread : bytesRead k = l := by
        simp only [bytesRead, hfion, if_true, hl, Option.getD_some]
      exact hread ▸ hk hfion b rfl
  · rw [if_neg hzero] at hcount
    omega

/-- **`read_data`** stays within the block. -/
theorem readData_orderly {r : Option IoBuf} (hr : Sized r) {k : KernelRead} (hk : ReadWithin r k)
    (p : BufPool) : Ends (fun _ => True) Halt.Orderly (readData r k p) := by
  obtain ⟨fionread, reads⟩ := k
  cases fionread with
  | none => exact ends_ok trivial
  | some needRead =>
    by_cases hf : Front r
    · cases callsRead hf needRead p with
      | refused r' p' _ hread =>
        rw [hread]
        exact ends_ok trivial
      | exits _ hread =>
        rw [hread]
        exact ends_error (Or.inl rfl)
      | calls b p' h hread _ hc hroom =>
        rw [hread]
        exact readInto_orderly (fun l => length_le_of_readWithin hf hk rfl h rfl hc hroom) _ _
    · -- The first `assert` fails.
      obtain ⟨b, rfl⟩ : ∃ b, r = some b :=
        Option.ne_none_iff_exists'.mp fun hnone => hf (hnone ▸ front_none)
      have hhead : b.head ≠ 0 := fun hhead => hf (front_some.mpr ⟨hhead, hr b rfl⟩)
      rw [readData]
      simp only [ensure, ok_bind]
      rw [if_pos hhead]
      exact ends_error (Or.inr rfl)

/-- **`write_data`** stays within the block. -/
theorem writeData_orderly {r : Option IoBuf} {l : List UInt8} (hl : GrowWithin r l.length)
    (p : BufPool) : Ends (fun _ => True) Halt.Orderly (writeData r l p) := by
  unfold writeData
  rcases ensure_cases r l.length p with ⟨he, -⟩ | ⟨he, -⟩ | ⟨b, p₁, he, hb⟩ <;> rw [he]
  · exact ends_ok trivial
  · exact ends_error (Or.inl rfl)
  rw [ok_bind]
  dsimp only
  rcases grow_cases b l.length p₁ with ⟨hg, -⟩ | ⟨hg, -⟩ | ⟨hg, hfull, hover⟩ | ⟨b', p₂, hg, -⟩ <;>
    rw [hg]
  · exact ends_ok trivial
  · exact ends_error (Or.inl rfl)
  · -- A buffer made for the bytes does not have to be moved.
    rcases hb with rfl | ⟨-, hlen, -, hcap⟩
    · exact absurd (hl b rfl hfull) hover.not_ge
    · omega
  · exact ends_ok trivial

theorem pop_orderly (r : Option IoBuf) (len : ℕ) (p : BufPool) :
    Ends (fun _ => True) Halt.Orderly (pop r len p) := by
  cases r with
  | none => exact ends_error (Or.inr rfl)
  | some b =>
    simp only [pop]
    split_ifs
    · exact ends_ok trivial
    · exact ends_ok trivial
    · exact ends_error (Or.inr rfl)

theorem write2fd_orderly (r : Option IoBuf) (answers : List WriteAnswer) :
    Ends (fun _ => True) Halt.Orderly (write2fd r answers) := by
  cases r with
  | none => exact ends_error (Or.inr rfl)
  | some b =>
    simp only [write2fd]
    split_ifs
    · exact ends_ok trivial
    · exact ends_error (Or.inr rfl)

end ReactorBuf

/-! ## Runs -/

/-- The call on an object with the buffer `r` stays within the block. -/
def BufCall.WithinValue (r : Option IoBuf) : BufCall → Prop
  | .readData k => ReactorBuf.ReadWithin r k
  | .writeData data => ReactorBuf.GrowWithin r data.length
  | _ => True

theorem BufValues.exec_orderly {r : Option IoBuf} (hr : ReactorBuf.Sized r) {call : BufCall}
    (hcall : call.WithinValue r) (p : BufPool) :
    Ends (fun _ => True) Halt.Orderly (BufValues.exec r p call) := by
  cases call with
  | readData k => exact (ReactorBuf.readData_orderly hr hcall p).bind fun _ _ => ends_ok trivial
  | writeData data => exact (ReactorBuf.writeData_orderly hcall p).bind fun _ _ => ends_ok trivial
  | write2fd answers => exact (ReactorBuf.write2fd_orderly r answers).bind fun _ _ => ends_ok trivial
  | pop len => exact (ReactorBuf.pop_orderly r len p).bind fun _ _ => ends_ok trivial
  | clear => exact ends_ok trivial
  | adjust => exact ends_ok trivial
  | destroy => exact ends_ok trivial

namespace Buffers

variable {ι : Type}

/-- The call on an object stays within the block of the buffer that it holds: when `FIONREAD` has
reported nothing, there is room behind the bytes held for those that come; and a buffer that has to
be moved for new bytes holds its own within its block. -/
def Within (s : Buffers ι) : ι × BufCall → Prop
  | (i, .readData k) => k.fionread = some 0 → ∀ a, s.buf i = some a →
    (s.heap.nodes a).length + (ReactorBuf.bytesRead k).length ≤ (s.heap.nodes a).capacity
  | (i, .writeData data) => ∀ a, s.buf i = some a →
    (s.heap.nodes a).capacity < (s.heap.nodes a).length + data.length →
    (s.heap.nodes a).head + (s.heap.nodes a).length ≤ (s.heap.nodes a).capacity
  | _ => True

/-- The buffers are conserved, unless the process exits or an `assert` of the calls fails; the
`assert` of `revert` does not. -/
def Conserving (x : Except HeapHalt (List (Option ℤ) × Buffers ι)) : Prop :=
  Ends (fun o => o.2.Conserved) (fun t => t = .halt .exit ∨ t = .halt .abort) x

variable {s : Buffers ι} {v : BufValues ι}

/-- A buffer that is held, in memory and as a value. -/
theorem Shows.exists_eq_some (hs : s.Shows v) {i : ι} {b : IoBuf} (hb : v.buf i = some b) :
    ∃ a, s.buf i = some a ∧ s.heap.Shows a b := by
  have hi := hs.shows i
  rw [hb] at hi
  cases hbuf : s.buf i with
  | none => exact nomatch hbuf ▸ hi
  | some a =>
    rw [hbuf] at hi
    cases hi with
    | some hab => exact ⟨a, rfl, hab⟩

theorem Shows.sized (hs : s.Shows v) (i : ι) : ReactorBuf.Sized (v.buf i) := fun b hb => by
  obtain ⟨a, -, hab⟩ := hs.exists_eq_some hb
  exact hab.within

theorem Shows.withinValue (hs : s.Shows v) {i : ι} {call : BufCall} (h : s.Within (i, call)) :
    call.WithinValue (v.buf i) := by
  cases call with
  | readData k =>
    intro hfion b hb
    obtain ⟨a, ha, hab⟩ := hs.exists_eq_some hb
    have hroom := h hfion a ha
    rw [BufHeap.length_eq_of_shows hab, hab.capacity] at hroom
    exact hroom
  | writeData data =>
    intro b hb hfull
    obtain ⟨a, ha, hab⟩ := hs.exists_eq_some hb
    have hroom := h a ha
    rw [BufHeap.length_eq_of_shows hab, BufHeap.head_eq_of_shows hab, hab.capacity] at hroom
    exact hroom hfull
  | write2fd answers => trivial
  | pop len => trivial
  | clear => trivial
  | adjust => trivial
  | destroy => trivial

variable [DecidableEq ι]

/-- A step that stays within the blocks. -/
theorem step_orderly (hs : ∃ v, s.Shows v) {e : ι × BufCall} (he : e.2.Fits ∧ s.Within e) :
    Ends (fun o => ∃ v, o.2.Shows v) (fun t => t = .halt .exit ∨ t = .halt .abort) (step s e) := by
  obtain ⟨v, hv⟩ := hs
  obtain ⟨i, call⟩ := e
  have hvalues : Ends (fun _ => True) Halt.Orderly (BufValues.step v (i, call)) :=
    (BufValues.exec_orderly (hv.sized i) (hv.withinValue he.2) v.pool).bind fun _ _ =>
      ends_ok trivial
  refine ((step_refines hv he.1).ends hvalues).imp ?_ ?_
  · rintro o ⟨o', -, -, ho⟩
    exact ⟨o'.2, ho⟩
  · rintro t ⟨t', ht', rfl⟩
    exact ht'.imp (congrArg HeapHalt.halt) (congrArg HeapHalt.halt)

/-- **The buffers are conserved** in every run of calls that stay within the blocks: each buffer made
is in exactly one place in the state that the run ends in, and the process can only end by `exit` or
by an `assert` of the calls, not by that of `revert`. -/
theorem conserved_of_within {es : List (ι × BufCall)} (hes : ∀ e ∈ es, e.2.Fits)
    (hwithin : Along step Within (new : Buffers ι) es) :
    Conserving (run step (new : Buffers ι) es) := by
  have hok : Along step (fun s e => e.2.Fits ∧ Within s e) (new : Buffers ι) es :=
    Along.forall_and hes hwithin
  have hends := run_ends_along (P := fun s : Buffers ι => ∃ v, s.Shows v)
    (fun s e hs he => step_orderly hs he) ⟨_, shows_new⟩ hok
  exact ⟨fun o ho => (conserved_of_run es).2 o.1 o.2 ho, hends.error⟩

/-- Two bytes are read, one after the other, and one of them is popped. -/
theorem conserved_of_within_read : ∃ s,
    run step (new : Buffers Bool) [(true, .readData (.chunk 0 [97])),
      (true, .readData (.chunk 0 [98])), (true, .pop 1), (true, .adjust)] =
      .ok ([some 1, some 1, none, none], s) ∧ s.Conserved := by
  have hfits : ∀ e ∈ [(true, BufCall.readData (.chunk 0 [97])), (true, .readData (.chunk 0 [98])),
      (true, .pop 1), (true, .adjust)], e.2.Fits := by
    simp [BufCall.Fits, KernelRead.chunk]
  obtain ⟨v, hv⟩ := output_eq_some.mp
    (rfl : output (run BufValues.step (BufValues.new : BufValues Bool)
      [(true, .readData (.chunk 0 [97])), (true, .readData (.chunk 0 [98])), (true, .pop 1),
        (true, .adjust)]) = some [some 1, some 1, none, none])
  obtain ⟨⟨outs, s⟩, hs, houts, -⟩ := (run_refines hfits).ok _ hv
  obtain rfl : _ = outs := houts
  refine ⟨s, hs, (conserved_of_within hfits ?_).ok _ hs⟩
  exact along_cons (by rintro ⟨⟩) (along_cons (by rintro ⟨⟩)
    (along_cons trivial (along_cons trivial (along_nil _ _))))

/-- A byte is held in a buffer of 4K, nothing is reported, and 4096 bytes have come. -/
theorem not_conserving : ¬ ∀ es : List (Bool × BufCall), (∀ e ∈ es, e.2.Fits) →
    Conserving (run step (new : Buffers Bool) es) := by
  intro hall
  obtain ⟨l, hl⟩ : ∃ l : List UInt8, l.length = 4096 :=
    ⟨List.replicate 4096 0, List.length_replicate ..⟩
  have hfits : ∀ e ∈ [(true, BufCall.readData (.chunk 0 [0])),
      (true, .readData ⟨some 0, [.data l]⟩)], e.2.Fits := by
    simp [BufCall.Fits, KernelRead.chunk]
  obtain ⟨v, hv⟩ : ∃ v, v = after BufValues.step (BufValues.new : BufValues Bool)
    (true, .readData (.chunk 0 [0])) := ⟨_, rfl⟩
  have hread : BufValues.step BufValues.new (true, .readData (.chunk 0 [0])) = .ok (some 1, v) := by
    rw [hv]
    rfl
  have hbuf : v.buf true = some ReactorBuf.oneByte := by
    rw [hv]
    rfl
  have hover : BufValues.step v (true, .readData ⟨some 0, [.data l]⟩) = .error .undefined := by
    rw [BufValues.step, hbuf, BufValues.exec, ReactorBuf.readData_oneByte hl.ge]
    rfl
  have hrun : run BufValues.step (BufValues.new : BufValues Bool)
      [(true, .readData (.chunk 0 [0])), (true, .readData ⟨some 0, [.data l]⟩)] =
      .error .undefined := by
    rw [run_cons_ok hread, run_cons_error hover]
  obtain ⟨t, ht, rfl⟩ := (run_refines hfits).error _ hrun
  rcases (hall _ hfits).error _ ht with h | h <;> cases h

end Buffers

end Lars.Reactor
