import Mathlib.Tactic.Ring
import Lars.Foundations.Loop
import Lars.Reactor.BufPool
import Lars.Reactor.Message

/-!
# The buffers of a connection

`reactor_buf`, `input_buf` and `output_buf` (`lars_reactor/src/reactor_buf.cc`) hold one buffer of
the pool, or none (`Option IoBuf`; `none` is the null `m_buf`). Reading and writing make the buffer
grow by moving its bytes to a larger one.

The kernel's answers to `ioctl`, `read` and `write` are data: a call gets the list of answers it
will see, and once they are used up the descriptor would block.

What matters of a connection's buffer is `contents`. It must be `Front`, with its bytes at the start
of the block, for `readData` and `write2fd` to work; `readData_spec`, `writeData_cases`,
`writeRetry_spec` and `drain_spec` say what the operations do then.
-/

namespace Lars.Reactor

open Machine Memory

/-- The answer to a `read`. -/
inductive ReadAnswer
  /-- Bytes, as many as were asked for at most; none when the peer has closed. -/
  | data (l : List UInt8)
  /-- `-1` with `EINTR`. -/
  | interrupted
  /-- `-1` with another error. -/
  | failed
  deriving DecidableEq

/-- What the kernel answers during one `read_data`: the number of bytes `FIONREAD` reports, `none`
when `ioctl` fails, and the answers to the calls of `read`. -/
structure KernelRead where
  fionread : Option ℕ
  reads : List ReadAnswer
  deriving DecidableEq

/-- The answer to a `write`. -/
inductive WriteAnswer
  /-- Bytes are accepted, up to `k + 1` of those offered. -/
  | accepted (k : ℕ)
  /-- `-1` with `EINTR`. -/
  | interrupted
  /-- `-1` with `EAGAIN`. -/
  | wouldBlock
  /-- `-1` with another error. -/
  | failed
  deriving DecidableEq

/-- A chunk `l` that `FIONREAD` announces and `read` delivers after `n` interruptions. -/
def KernelRead.chunk (n : ℕ) (l : List UInt8) : KernelRead :=
  ⟨some l.length, List.replicate n .interrupted ++ [.data l]⟩

namespace ReactorBuf

/-- `reactor_buf::length`. -/
def length (r : Option IoBuf) : ℕ := r.elim 0 IoBuf.length

/-- The bytes held. -/
def contents (r : Option IoBuf) : List UInt8 := r.elim [] IoBuf.contents

/-- `reactor_buf::pop`. -/
def pop (r : Option IoBuf) (len : ℕ) (p : BufPool) : Except Halt (Option IoBuf × BufPool) :=
  match r with
  | none => .error .abort
  | some b =>
    if len ≤ b.length then
      if (b.pop len).length > 0 then .ok (some (b.pop len), p)
      else .ok (none, p.revert (b.pop len))
    else .error .abort

/-- `reactor_buf::clear`: the buffer goes back to the pool. -/
def clear (r : Option IoBuf) (p : BufPool) : BufPool :=
  match r with
  | none => p
  | some b => p.revert b

/-- The first step of `read_data` and of `write_data`: without a buffer, allocate one for `n`
bytes. -/
def ensure (r : Option IoBuf) (n : ℕ) (p : BufPool) : Except Halt (Option IoBuf × BufPool) :=
  match r with
  | some b => .ok (some b, p)
  | none => p.allocBuf n

/-- The second step of `read_data` and of `write_data`: without room for `n` more bytes, move to a
buffer allocated for the capacity plus `n`. -/
def grow (b : IoBuf) (n : ℕ) (p : BufPool) : Except Halt (Option IoBuf × BufPool) :=
  if (b.capacity : ℤ) - b.length < n then do
    let (newBuf, p) ← p.allocBuf (b.capacity + n)
    match newBuf with
    | none => .ok (none, p)
    | some newBuf =>
      if b.capacity < b.head + b.length then .error .overread
      else .ok (some (newBuf.copy b), p.revert b)
  else .ok (some b, p)

/-- `read` of up to `count` bytes, retried while interrupted; `none` is `-1`. -/
def readRetry (count : ℕ) : List ReadAnswer → Option (List UInt8)
  | [] => none
  | .interrupted :: rest => readRetry count rest
  | .failed :: _ => none
  | .data l :: _ => some (l.take count)

/-- `input_buf::read_data`: the value returned, and the buffer. -/
def readData (r : Option IoBuf) (k : KernelRead) (p : BufPool) :
    Except Halt (ℤ × Option IoBuf × BufPool) :=
  match k.fionread with
  | none => .ok (-1, r, p)
  | some needRead => do
    let (r, p) ← ensure r needRead p
    match r with
    | none => .ok (-1, none, p)
    | some b =>
      if b.head ≠ 0 then .error .abort
      else
        let (r, p) ← grow b needRead p
        match r with
        | none => .ok (-1, some b, p)
        | some b =>
          match readRetry (if needRead = 0 then MemCap.m4K.size else needRead) k.reads with
          | none => .ok (-1, some b, p)
          | some l =>
            if b.capacity < b.length + l.length then .error .undefined
            else if l.length > 0 then
              if needRead ≠ 0 ∧ l.length ≠ needRead then .error .abort
              else .ok (l.length, some (b.append l), p)
            else .ok (0, some b, p)

/-- `input_buf::data` as an offset into the block. -/
def data (r : Option IoBuf) : ℕ := r.elim 0 IoBuf.head

/-- `input_buf::adjust`. -/
def adjust (r : Option IoBuf) : Option IoBuf := r.map IoBuf.adjust

/-- `output_buf::write_data`: the value returned, and the buffer. -/
def writeData (r : Option IoBuf) (data : List UInt8) (p : BufPool) :
    Except Halt (ℤ × Option IoBuf × BufPool) := do
  let (r', p) ← ensure r data.length p
  match r' with
  | none => .ok (-1, none, p)
  | some b =>
    let (r', p) ← grow b data.length p
    match r' with
    | none => .ok (-1, some b, p)
    | some b => .ok (data.length, some (b.append data), p)

/-- The part of `tcp_conn::send` and `tcp_client::send` that appends a frame: first the header, then
the body; if there is no room for the body, `pop` is called for the header. -/
def sendFrame (r : Option IoBuf) (id : Int32) (body : List UInt8) (p : BufPool) :
    Except Halt (ℤ × Option IoBuf × BufPool) := do
  let (ret, r, p) ← writeData r (header id body).bytes p
  if ret < 0 then .ok (-1, r, p)
  else
    let (ret, r, p) ← writeData r body p
    if ret < 0 then
      let (r, p) ← pop r messageHeaderSize p
      .ok (-1, r, p)
    else .ok (0, r, p)

/-- What `write2fd` leaves: the value returned, the bytes the kernel accepted, the buffer, and the
kernel's further answers. -/
structure Written where
  hasWrite : ℤ
  accepted : List UInt8
  buf : IoBuf
  answers : List WriteAnswer

/-- `write` of the valid bytes, retried while interrupted, and what `write2fd` does with the
answer. -/
def writeRetry (b : IoBuf) : List WriteAnswer → Written
  | [] => ⟨0, [], b, []⟩
  | .interrupted :: rest => writeRetry b rest
  | .wouldBlock :: rest => ⟨0, [], b, rest⟩
  | .failed :: rest => ⟨-1, [], b, rest⟩
  | .accepted k :: rest =>
    let hasWrite := min (k + 1) b.length
    ⟨hasWrite, load b.data 0 hasWrite,
      if hasWrite > 0 then (b.pop hasWrite).adjust else b, rest⟩

/-- `output_buf::write2fd`. -/
def write2fd (r : Option IoBuf) (answers : List WriteAnswer) : Except Halt Written :=
  match r with
  | none => .error .abort
  | some b => if b.head = 0 then .ok (writeRetry b answers) else .error .abort

/-- The state of the loop of `handle_write`: the buffer, what was accepted, the answers to come. -/
structure Draining where
  buf : Option IoBuf
  accepted : List UInt8
  answers : List WriteAnswer

/-- The body of the loop of `tcp_conn::handle_write` and `tcp_client::handle_write`. It is left with
`true` when `write` has failed. -/
def drainBody (s : Draining) : Except Halt (Pass Draining (Bool × Draining)) :=
  if length s.buf > 0 then do
    let w ← write2fd s.buf s.answers
    let s' : Draining := ⟨some w.buf, s.accepted ++ w.accepted, w.answers⟩
    if w.hasWrite < 0 then .ok (.leave (true, s'))
    else if w.hasWrite = 0 then .ok (.leave (false, s'))
    else .ok (.next s')
  else .ok (.leave (false, s))

/-- A `write` that accepts bytes uses up an answer. -/
theorem length_writeRetry_lt {b : IoBuf} : ∀ {answers : List WriteAnswer},
    0 < (writeRetry b answers).hasWrite → (writeRetry b answers).answers.length < answers.length
  | [], h => by simp [writeRetry] at h
  | .interrupted :: rest, h => (@length_writeRetry_lt b rest h).trans (by simp)
  | .wouldBlock :: _, h => by simp [writeRetry] at h
  | .failed :: _, h => by simp [writeRetry] at h
  | .accepted _ :: _, _ => by simp [writeRetry]

theorem drainBody_decreases : Decreases drainBody fun s => s.answers.length := by
  intro s s' h
  unfold drainBody at h
  split_ifs at h with hlen
  · obtain ⟨w, hw, h⟩ := bind_eq_ok.mp h
    split_ifs at h with h₁ h₂ <;> cases h
    cases hb : s.buf with
    | none => simp [hb, write2fd] at hw
    | some b =>
      simp only [hb, write2fd] at hw
      split_ifs at hw
      cases hw
      exact length_writeRetry_lt (by omega)
  · cases h

/-- The loop of `handle_write`: whether it ended with an error, and the state it ended in. -/
def drain (r : Option IoBuf) (answers : List WriteAnswer) : Except Halt (Bool × Draining) :=
  loop drainBody drainBody_decreases ⟨r, [], answers⟩

/-! ## What the operations do -/

/-- The buffer, if there is one, has its bytes at the start of its block. -/
def Front (r : Option IoBuf) : Prop := ∀ b, r = some b → b.Front

@[simp] theorem length_contents (r : Option IoBuf) : (contents r).length = length r := by
  cases r with
  | none => rfl
  | some b => exact b.length_contents

/-- What holds bytes holds a buffer. -/
theorem exists_eq_some_of_length_pos {r : Option IoBuf} (h : 0 < length r) : ∃ b, r = some b := by
  cases r with
  | none => exact absurd h (Nat.lt_irrefl 0)
  | some b => exact ⟨b, rfl⟩

@[simp] theorem front_none : Front none := fun _ h => nomatch h

@[simp] theorem front_some {b : IoBuf} : Front (some b) ↔ b.Front :=
  ⟨fun h => h b rfl, fun h _ hb => Option.some.inj hb ▸ h⟩

theorem examine_data (b : IoBuf) :
    examine b.data (data (some b)) b.length = find b.contents := examine_eq_find ..

/-- `ensure` fails only without a buffer; else it gives one that holds the same bytes, with room for
`n` if it was made for them. -/
theorem ensure_cases (r : Option IoBuf) (n : ℕ) (p : BufPool) :
    (ensure r n p = .ok (none, p) ∧ r = none) ∨ (ensure r n p = .error .exit ∧ r = none) ∨
    ∃ b p', ensure r n p = .ok (some b, p') ∧
      (r = some b ∨ r = none ∧ b.length = 0 ∧ b.head = 0 ∧ n ≤ b.capacity) := by
  cases r with
  | some b => exact Or.inr (Or.inr ⟨b, p, rfl, Or.inl rfl⟩)
  | none =>
    rcases p.allocBuf_cases n with ⟨h, -⟩ | ⟨h, -⟩ | ⟨b, p', h, -, hn, hlen, hhead⟩
    · exact Or.inl ⟨h, rfl⟩
    · exact Or.inr (Or.inl ⟨h, rfl⟩)
    · exact Or.inr (Or.inr ⟨b, p', h, Or.inr ⟨rfl, hlen, hhead, by exact_mod_cast hn⟩⟩)

/-- `grow` fails only when the larger buffer is refused, the process exits, or the bytes held run
past the end of their block; else they are kept and there is room for `n` more. -/
theorem grow_cases (b : IoBuf) (n : ℕ) (p : BufPool) :
    (grow b n p = .ok (none, p) ∧ b.capacity < b.length + n ∧
      BufPool.index (b.capacity + n) = none) ∨
    (grow b n p = .error .exit ∧ b.capacity < b.length + n) ∨
    (grow b n p = .error .overread ∧ b.capacity < b.length + n ∧
      b.capacity < b.head + b.length) ∨
    ∃ b' p', grow b n p = .ok (some b', p') ∧ b'.contents = b.contents ∧
      (b.Front → b'.Front ∧ b'.length + n ≤ b'.capacity) := by
  rw [grow]
  by_cases h : (b.capacity : ℤ) - b.length < n
  · rw [if_pos h]
    have hlt : b.capacity < b.length + n := by omega
    rcases p.allocBuf_cases (b.capacity + n) with ⟨ha, hi⟩ | ⟨ha, -⟩ | ⟨b', p', ha, -, hn, -, -⟩
    · exact Or.inl ⟨by rw [ha]; rfl, hlt, hi⟩
    · exact Or.inr (Or.inl ⟨by rw [ha]; rfl, hlt⟩)
    · rw [ha, ok_bind]
      dsimp only
      by_cases hover : b.capacity < b.head + b.length
      · exact Or.inr (Or.inr (Or.inl ⟨if_pos hover, hlt, hover⟩))
      refine Or.inr (Or.inr (Or.inr
        ⟨b'.copy b, p'.revert b, if_neg hover, IoBuf.contents_copy b' b, fun hf => ?_⟩))
      have hle := hf.length_le
      have hcap : b.capacity + n ≤ b'.capacity := by exact_mod_cast hn
      have hlen : (b'.copy b).length = b.length := rfl
      have hcap' : (b'.copy b).capacity = b'.capacity := rfl
      exact ⟨⟨rfl, by omega⟩, by omega⟩
  · exact Or.inr (Or.inr (Or.inr ⟨b, p, if_neg h, rfl, fun hf => ⟨hf, by omega⟩⟩))

/-- Of a buffer with its bytes in front, none run past the end of the block. -/
theorem grow_front_cases {b : IoBuf} (hb : b.Front) (n : ℕ) (p : BufPool) :
    (grow b n p = .ok (none, p) ∧ b.capacity < b.length + n ∧
      BufPool.index (b.capacity + n) = none) ∨
    (grow b n p = .error .exit ∧ b.capacity < b.length + n) ∨
    ∃ b' p', grow b n p = .ok (some b', p') ∧ b'.contents = b.contents ∧
      b'.Front ∧ b'.length + n ≤ b'.capacity := by
  rcases grow_cases b n p with h | h | ⟨-, -, hover⟩ | ⟨b', p', h, hc, hf⟩
  · exact Or.inl h
  · exact Or.inr (Or.inl h)
  · have hhead := hb.head_eq
    have hlen := hb.length_le
    omega
  · exact Or.inr (Or.inr ⟨b', p', h, hc, hf hb⟩)

theorem grow_of_room {b : IoBuf} {n : ℕ} (h : b.length + n ≤ b.capacity) (p : BufPool) :
    grow b n p = .ok (some b, p) := if_neg (by omega)

/-- Growing leaves a buffer where it is or moves its bytes to the front of a larger one. -/
theorem grow_same_or_moved {b b' : IoBuf} {n : ℕ} {p p' : BufPool}
    (h : grow b n p = .ok (some b', p')) :
    (b.length + n ≤ b.capacity ∧ b' = b) ∨
      (b.capacity < b.length + n ∧ b.head + b.length ≤ b.capacity ∧
        b.capacity + n ≤ MemCap.m8M.size ∧ b'.head = 0 ∧ b'.length = b.length ∧
        b'.contents = b.contents) := by
  rw [grow] at h
  by_cases hroom : (b.capacity : ℤ) - b.length < n
  · rw [if_pos hroom] at h
    refine Or.inr ⟨by omega, ?_⟩
    rcases p.allocBuf_cases (b.capacity + n) with ⟨ha, -⟩ | ⟨ha, -⟩ | ⟨b₁, p₁, ha, -, hn, -, -⟩ <;>
      rw [ha] at h
    · cases h
    · cases h
    · rw [ok_bind] at h
      dsimp only at h
      split_ifs at h with hover
      cases h
      have hsize : (b₁.capacity : ℤ) ≤ MemCap.m8M.size := by exact_mod_cast MemCap.size_le b₁.cap
      exact ⟨by omega, by omega, rfl, rfl, IoBuf.contents_copy b₁ b⟩
  · rw [if_neg hroom] at h
    cases h
    exact Or.inl ⟨by omega, rfl⟩

/-- **`write_data`** on a buffer with its bytes in front appends, unless it returns `-1` or the
process exits. -/
theorem writeData_cases {r : Option IoBuf} (hr : Front r) (l : List UInt8) (p : BufPool) :
    writeData r l p = .error .exit ∨ (∃ r' p', writeData r l p = .ok (-1, r', p')) ∨
    ∃ b p', writeData r l p = .ok (l.length, some b, p') ∧ b.Front ∧
      b.contents = contents r ++ l := by
  unfold writeData
  rcases ensure_cases r l.length p with ⟨he, -⟩ | ⟨he, -⟩ | ⟨b, p₁, he, hb⟩
  · exact Or.inr (Or.inl ⟨none, p, by rw [he]; rfl⟩)
  · exact Or.inl (by rw [he]; rfl)
  · obtain ⟨hf, hc⟩ : b.Front ∧ b.contents = contents r := by
      rcases hb with rfl | ⟨rfl, hlen, hhead, -⟩
      · exact ⟨hr b rfl, rfl⟩
      · exact ⟨⟨hhead, by omega⟩, by simp [IoBuf.contents, contents, hlen]⟩
    rcases grow_front_cases hf l.length p₁ with
      ⟨hg, -⟩ | ⟨hg, -⟩ | ⟨b', p₂, hg, hc', hf', hroom⟩
    · exact Or.inr (Or.inl ⟨some b, p₁, by rw [he, ok_bind]; dsimp only; rw [hg]; rfl⟩)
    · exact Or.inl (by rw [he, ok_bind]; dsimp only; rw [hg]; rfl)
    · refine Or.inr (Or.inr ⟨b'.append l, p₂, by rw [he, ok_bind]; dsimp only; rw [hg]; rfl,
        ⟨hf'.head_eq, hroom⟩, ?_⟩)
      rw [IoBuf.contents_append hf'.head_eq, hc', hc]

/-- What `write_data` has written is behind the bytes held before. -/
theorem writeData_front {r r' : Option IoBuf} (hr : Front r) {l : List UInt8} {p p' : BufPool}
    {n : ℤ} (h : writeData r l p = .ok (n, r', p')) (hn : ¬ n < 0) :
    Front r' ∧ contents r' = contents r ++ l := by
  rcases writeData_cases hr l p with h' | ⟨r₁, p₁, h'⟩ | ⟨b, p₁, h', hf, hc⟩ <;>
    cases h'.symm.trans h
  · exact absurd (by decide) hn
  · exact ⟨front_some.mpr hf, hc⟩

/-- A `write_data` that returns `-1` has left the buffer as it was. -/
theorem writeData_neg {r r' : Option IoBuf} {l : List UInt8} {p p' : BufPool} {n : ℤ}
    (h : writeData r l p = .ok (n, r', p')) (hn : n < 0) : r' = r := by
  unfold writeData at h
  rcases ensure_cases r l.length p with ⟨he, rfl⟩ | ⟨he, -⟩ | ⟨b, p₁, he, hb⟩
  · rw [he] at h
    cases h
    rfl
  · rw [he] at h
    cases h
  · rw [he, ok_bind] at h
    dsimp only at h
    rcases grow_cases b l.length p₁ with
      ⟨hg, hlt, -⟩ | ⟨hg, -⟩ | ⟨hg, -⟩ | ⟨b', p₂, hg, -, -⟩ <;> rw [hg] at h <;> cases h
    · rcases hb with rfl | ⟨rfl, hlen, -, hcap⟩
      · rfl
      · omega
    · omega

/-- What a `write_data` that succeeds on a buffer has done: it has grown it and appended. -/
theorem writeData_some {b : IoBuf} {r' : Option IoBuf} {l : List UInt8} {p p' : BufPool} {n : ℤ}
    (h : writeData (some b) l p = .ok (n, r', p')) (hn : ¬ n < 0) :
    ∃ b₁ p₁, grow b l.length p = .ok (some b₁, p₁) ∧ r' = some (b₁.append l) := by
  obtain ⟨⟨r₁, p₁⟩, he, h⟩ := bind_eq_ok.mp h
  cases he
  obtain ⟨⟨r₂, p₂⟩, hg, h⟩ := bind_eq_ok.mp h
  cases r₂ with
  | none =>
    cases h
    omega
  | some b₁ =>
    cases h
    exact ⟨b₁, _, hg, rfl⟩

/-- How a `write_data` can end the process; what it has written is there. -/
theorem writeData_error_or_length (r : Option IoBuf) (l : List UInt8) (p : BufPool) :
    ExitsOrOverreads (writeData r l p) ∨
    ∃ n r' p', writeData r l p = .ok (n, r', p') ∧
      (n < 0 ∨ ∃ b, r' = some b ∧ l.length ≤ b.length) := by
  unfold writeData
  rcases ensure_cases r l.length p with ⟨he, -⟩ | ⟨he, -⟩ | ⟨b, p₁, he, -⟩
  · exact Or.inr ⟨-1, none, p, by rw [he]; rfl, Or.inl (by decide)⟩
  · exact Or.inl (Or.inl (by rw [he]; rfl))
  · rw [he, ok_bind]
    dsimp only
    rcases grow_cases b l.length p₁ with ⟨hg, -⟩ | ⟨hg, -⟩ | ⟨hg, -⟩ | ⟨b', p₂, hg, -, -⟩
    · exact Or.inr ⟨-1, some b, p₁, by rw [hg]; rfl, Or.inl (by decide)⟩
    · exact Or.inl (Or.inl (by rw [hg]; rfl))
    · exact Or.inl (Or.inr (by rw [hg]; rfl))
    · exact Or.inr ⟨l.length, some (b'.append l), p₂, by rw [hg]; rfl,
        Or.inr ⟨_, rfl, Nat.le_add_left _ _⟩⟩

theorem readRetry_chunk (n : ℕ) (l : List UInt8) :
    readRetry l.length (List.replicate n .interrupted ++ [.data l]) = some l := by
  induction n with
  | zero => simp [readRetry]
  | succ n ih => rwa [List.replicate_succ, List.cons_append, readRetry]

/-- **`read_data`** on a chunk and a buffer with its bytes in front appends the chunk, unless it
returns `-1` for want of a buffer or the process exits. -/
theorem readData_chunk_cases {r : Option IoBuf} (hr : Front r) {l : List UInt8} (hl : l ≠ [])
    (n : ℕ) (p : BufPool) :
    readData r (.chunk n l) p = .error .exit ∨
    (∃ r' p', readData r (.chunk n l) p = .ok (-1, r', p')) ∨
    ∃ b p', readData r (.chunk n l) p = .ok (l.length, some b, p') ∧ b.Front ∧
      b.contents = contents r ++ l := by
  have hpos : 0 < l.length := List.length_pos_iff.mpr hl
  unfold readData
  simp only [KernelRead.chunk]
  rcases ensure_cases r l.length p with ⟨he, -⟩ | ⟨he, -⟩ | ⟨b, p₁, he, hb⟩
  · exact Or.inr (Or.inl ⟨none, p, by rw [he]; rfl⟩)
  · exact Or.inl (by rw [he]; rfl)
  · obtain ⟨hf, hc⟩ : b.Front ∧ b.contents = contents r := by
      rcases hb with rfl | ⟨rfl, hlen, hhead, -⟩
      · exact ⟨hr b rfl, rfl⟩
      · exact ⟨⟨hhead, by omega⟩, by simp [IoBuf.contents, contents, hlen]⟩
    simp only [he, ok_bind, hf.head_eq, ne_eq, not_true_eq_false, if_false, hpos.ne',
      readRetry_chunk]
    rcases grow_front_cases hf l.length p₁ with
      ⟨hg, -⟩ | ⟨hg, -⟩ | ⟨b', p₂, hg, hc', hf', hroom⟩
    · exact Or.inr (Or.inl ⟨some b, p₁, by rw [hg]; rfl⟩)
    · exact Or.inl (by rw [hg]; rfl)
    · refine Or.inr (Or.inr ⟨b'.append l, p₂, ?_, ⟨hf'.head_eq, hroom⟩, ?_⟩)
      · have : ¬ b'.capacity < b'.length + l.length := by omega
        simp only [hg, ok_bind, this, if_false, hpos, if_true, and_false]
      · rw [IoBuf.contents_append hf'.head_eq, hc', hc]

/-- The bytes that one `read_data` gets from the kernel. -/
def bytesRead (k : KernelRead) : List UInt8 :=
  match k.fionread with
  | none => []
  | some needRead =>
    (readRetry (if needRead = 0 then MemCap.m4K.size else needRead) k.reads).getD []

/-- What `ensure` gives holds the bytes held before, in front. -/
theorem ensure_front {r r' : Option IoBuf} (hr : Front r) {n : ℕ} {p p' : BufPool}
    (h : ensure r n p = .ok (r', p')) : Front r' ∧ contents r' = contents r := by
  rcases ensure_cases r n p with ⟨he, rfl⟩ | ⟨he, -⟩ | ⟨b, p₁, he, hb⟩
  · cases he.symm.trans h
    exact ⟨hr, rfl⟩
  · cases he.symm.trans h
  · cases he.symm.trans h
    rcases hb with rfl | ⟨rfl, hlen, hhead, -⟩
    · exact ⟨hr, rfl⟩
    · exact ⟨front_some.mpr ⟨hhead, by omega⟩, by simp [IoBuf.contents, contents, hlen]⟩

/-- **`read_data`** with any answers of the kernel keeps the bytes in front; when it returns a
positive value the bytes read are behind those held. -/
theorem readData_spec {r r' : Option IoBuf} (hr : Front r) {k : KernelRead} {p p' : BufPool} {n : ℤ}
    (h : readData r k p = .ok (n, r', p')) :
    Front r' ∧ (0 < n → n = (bytesRead k).length ∧ contents r' = contents r ++ bytesRead k) := by
  unfold readData at h
  unfold bytesRead
  cases hk : k.fionread with
  | none =>
    simp only [hk] at h
    cases h
    exact ⟨hr, fun h => by omega⟩
  | some needRead =>
    simp only [hk] at h ⊢
    generalize readRetry (if needRead = 0 then MemCap.m4K.size else needRead) k.reads = got at h ⊢
    obtain ⟨⟨r₁, p₁⟩, he, h⟩ := bind_eq_ok.mp h
    obtain ⟨hf₁, hc₁⟩ := ensure_front hr he
    cases r₁ with
    | none =>
      cases h
      exact ⟨front_none, fun h => by omega⟩
    | some b =>
      dsimp only at h
      split_ifs at h with hhead
      obtain ⟨⟨r₂, p₂⟩, hg, h⟩ := bind_eq_ok.mp h
      cases r₂ with
      | none =>
        cases h
        exact ⟨hf₁, fun h => by omega⟩
      | some b' =>
        dsimp only at h
        rcases grow_front_cases (front_some.mp hf₁) needRead p₁ with
          ⟨hg', -⟩ | ⟨hg', -⟩ | ⟨b'', p₃, hg', hc', hf, -⟩ <;> cases hg'.symm.trans hg
        cases got with
        | none =>
          cases h
          exact ⟨front_some.mpr hf, fun h => by omega⟩
        | some l =>
          dsimp only at h
          split_ifs at h with hroom hpos hne
          · cases h
            refine ⟨front_some.mpr ⟨hf.head_eq, Nat.le_of_not_lt hroom⟩, fun _ => ⟨rfl, ?_⟩⟩
            change (b'.append l).contents = _
            rw [IoBuf.contents_append hf.head_eq, hc', ← hc₁]
            rfl
          · cases h
            exact ⟨front_some.mpr hf, fun h => by omega⟩

theorem readData_pos {r r' : Option IoBuf} (hr : Front r) {k : KernelRead} {p p' : BufPool} {n : ℤ}
    (h : readData r k p = .ok (n, r', p')) (hn : 0 < n) :
    bytesRead k ≠ [] ∧ contents r' = contents r ++ bytesRead k := by
  obtain ⟨hlen, hcont⟩ := (readData_spec hr h).2 hn
  refine ⟨fun hnil => ?_, hcont⟩
  rw [hnil, List.length_nil] at hlen
  omega

/-- `pop` of bytes that are there drops them. -/
theorem pop_eq {b : IoBuf} {len : ℕ} (h : len ≤ b.length) (p : BufPool) :
    ∃ r' p', pop (some b) len p = .ok (r', p') ∧ contents r' = b.contents.drop len ∧
      (r' = none ∨ r' = some (b.pop len)) := by
  by_cases hpos : (b.pop len).length > 0
  · refine ⟨some (b.pop len), p, ?_, IoBuf.contents_pop b h, Or.inr rfl⟩
    simp only [pop, h, hpos, if_true]
  · refine ⟨none, p.revert (b.pop len), ?_, ?_, Or.inl rfl⟩
    · simp only [pop, h, hpos, if_true, if_false]
    · have hlen : b.length - len = 0 := Nat.eq_zero_of_not_pos hpos
      have : b.length ≤ len := by omega
      simp [contents, List.drop_of_length_le, this]

theorem contents_adjust (r : Option IoBuf) : contents (adjust r) = contents r := by
  cases r with
  | none => rfl
  | some b => exact b.contents_adjust

theorem front_adjust {r : Option IoBuf} (h : ∀ b, r = some b → b.length ≤ b.capacity) :
    Front (adjust r) := by
  cases r with
  | none => exact front_none
  | some b =>
    have hb : b.adjust.Front := ⟨by simp, by simpa using h b rfl⟩
    exact front_some.mpr hb

/-- What `sendFrame` does: the header is refused, or the body is and the length of a header popped,
or the frame is appended. -/
inductive SendsFrame (r : Option IoBuf) (id : Int32) (body : List UInt8) (p : BufPool) :
    ℤ → Option IoBuf → BufPool → Prop
  | headerRefused {n : ℤ} {p' : BufPool}
    (h : writeData r (header id body).bytes p = .ok (n, r, p')) (hn : n < 0) :
    SendsFrame r id body p (-1) r p'
  | bodyRefused {n₁ n₂ : ℤ} {b : IoBuf} {p₁ p₂ p' : BufPool} {r' : Option IoBuf}
    (h₁ : writeData r (header id body).bytes p = .ok (n₁, some b, p₁)) (hn₁ : ¬ n₁ < 0)
    (h₂ : writeData (some b) body p₁ = .ok (n₂, some b, p₂)) (hn₂ : n₂ < 0)
    (hpop : pop (some b) messageHeaderSize p₂ = .ok (r', p')) :
    SendsFrame r id body p (-1) r' p'
  | appended {n₁ n₂ : ℤ} {b : IoBuf} {p₁ p' : BufPool} {r' : Option IoBuf}
    (h₁ : writeData r (header id body).bytes p = .ok (n₁, some b, p₁)) (hn₁ : ¬ n₁ < 0)
    (h₂ : writeData (some b) body p₁ = .ok (n₂, r', p')) (hn₂ : ¬ n₂ < 0) :
    SendsFrame r id body p 0 r' p'

theorem sendsFrame {r r' : Option IoBuf} {id : Int32} {body : List UInt8} {p p' : BufPool} {n : ℤ}
    (h : sendFrame r id body p = .ok (n, r', p')) : SendsFrame r id body p n r' p' := by
  unfold sendFrame at h
  rcases writeData_error_or_length r (header id body).bytes p with h₁ | ⟨n₁, r₁, p₁, h₁, hn₁⟩
  · exact absurd h ((h₁.bind _).ne_ok _)
  rw [h₁, ok_bind] at h
  dsimp only at h
  split_ifs at h with hneg
  · cases h
    obtain rfl := writeData_neg h₁ hneg
    exact .headerRefused h₁ hneg
  obtain ⟨b, rfl, -⟩ := hn₁.resolve_left hneg
  obtain ⟨⟨n₂, r₂, p₂⟩, h₂, h⟩ := bind_eq_ok.mp h
  dsimp only at h
  split_ifs at h with hneg'
  · obtain ⟨⟨r₃, p₃⟩, hpop, h⟩ := bind_eq_ok.mp h
    cases h
    obtain rfl := writeData_neg h₂ hneg'
    exact .bodyRefused h₁ hneg h₂ hneg' hpop
  · cases h
    exact .appended h₁ hneg h₂ hneg'

/-- How `sendFrame` can end the process; the `assert` of its `pop` holds. -/
theorem sendFrame_error (r : Option IoBuf) (id : Int32) (body : List UInt8) (p : BufPool) :
    ExitsOrOverreads (sendFrame r id body p) ∨ ∃ o, sendFrame r id body p = .ok o := by
  unfold sendFrame
  rcases writeData_error_or_length r (header id body).bytes p with h | ⟨n, r₁, p₁, h, hn⟩
  · exact Or.inl (h.bind _)
  rw [h, ok_bind]
  dsimp only
  split_ifs with hneg
  · exact Or.inr ⟨_, rfl⟩
  obtain ⟨b, rfl, hb⟩ := hn.resolve_left hneg
  rcases writeData_error_or_length (some b) body p₁ with h' | ⟨n', r₂, p₂, h', -⟩
  · exact Or.inl (h'.bind _)
  rw [h', ok_bind]
  dsimp only
  split_ifs with hneg'
  · obtain rfl := writeData_neg h' hneg'
    rw [Message.length_bytes] at hb
    obtain ⟨r₃, p₃, hpop, -⟩ := pop_eq hb p₂
    exact Or.inr ⟨(-1, r₃, p₃), by rw [hpop]; rfl⟩
  · exact Or.inr ⟨_, rfl⟩

theorem writeData_of_room {b : IoBuf} {l : List UInt8} (h : b.length + l.length ≤ b.capacity)
    (p : BufPool) : writeData (some b) l p = .ok (l.length, some (b.append l), p) := by
  rw [writeData, ensure, ok_bind]
  dsimp only
  rw [grow_of_room h]
  rfl

/-- A frame that there is room for is put behind the bytes held. -/
theorem sendFrame_of_room {b : IoBuf} (id : Int32) {body : List UInt8}
    (h : b.length + messageHeaderSize + body.length ≤ b.capacity) (p : BufPool) :
    sendFrame (some b) id body p =
      .ok (0, some ((b.append (header id body).bytes).append body), p) := by
  have hhdr : (header id body).bytes.length = messageHeaderSize := Message.length_bytes _
  have h₁ := writeData_of_room (b := b) (l := (header id body).bytes) (by omega) p
  have h₂ := writeData_of_room (b := b.append (header id body).bytes) (l := body) (by
    change b.length + (header id body).bytes.length + body.length ≤ b.capacity
    omega) p
  rw [sendFrame, h₁, ok_bind]
  dsimp only
  rw [if_neg (by omega), h₂, ok_bind]
  exact if_neg (by omega)

/-- A `write` fails only if the kernel answers so. -/
theorem writeRetry_failed (b : IoBuf) : ∀ answers : List WriteAnswer,
    (writeRetry b answers).answers ⊆ answers ∧
      ((writeRetry b answers).hasWrite < 0 → WriteAnswer.failed ∈ answers)
  | [] => ⟨List.Subset.refl _, fun h => by simp [writeRetry] at h⟩
  | .interrupted :: rest => by
    obtain ⟨h₁, h₂⟩ := writeRetry_failed b rest
    exact ⟨List.subset_cons_of_subset _ h₁, fun h => List.mem_cons_of_mem _ (h₂ h)⟩
  | .wouldBlock :: _ => ⟨List.subset_cons_self _ _, fun h => by simp [writeRetry] at h⟩
  | .failed :: _ => ⟨List.subset_cons_self _ _, fun _ => List.mem_cons_self⟩
  | .accepted _ :: _ => by
    refine ⟨List.subset_cons_self _ _, fun h => ?_⟩
    simp only [writeRetry] at h
    omega

/-- The loop of `handle_write` ends with an error only if the kernel answers so. -/
theorem drain_failed {r : Option IoBuf} {answers : List WriteAnswer} {o : Bool × Draining}
    (h : drain r answers = .ok o) (ho : o.1 = true) : WriteAnswer.failed ∈ answers := by
  have hwritten : ∀ (s : Draining) (w : Written), write2fd s.buf s.answers = .ok w →
      w.answers ⊆ s.answers ∧ (w.hasWrite < 0 → WriteAnswer.failed ∈ s.answers) := by
    intro s w hw
    unfold write2fd at hw
    split at hw
    · cases hw
    · split_ifs at hw
      cases hw
      exact writeRetry_failed _ _
  refine loop_invariant drainBody_decreases (I := fun s => s.answers ⊆ answers)
    (Q := fun o => o.1 = true → WriteAnswer.failed ∈ answers) ?_ ?_ (List.Subset.refl _) h ho
  · intro s s' hs hb
    unfold drainBody at hb
    split_ifs at hb
    · obtain ⟨w, hw, hb⟩ := bind_eq_ok.mp hb
      split_ifs at hb <;> cases hb
      exact List.Subset.trans (hwritten s w hw).1 hs
    · cases hb
  · intro s o hs hb ho
    unfold drainBody at hb
    split_ifs at hb
    · obtain ⟨w, hw, hb⟩ := bind_eq_ok.mp hb
      split_ifs at hb with hneg <;> cases hb
      · exact hs ((hwritten s w hw).2 hneg)
      · cases ho
    · cases hb
      cases ho

/-- What a `write` and its retries do to a buffer with its bytes in front. -/
theorem writeRetry_spec {b : IoBuf} (hb : b.Front) : ∀ (answers : List WriteAnswer),
    (writeRetry b answers).accepted ++ (writeRetry b answers).buf.contents = b.contents ∧
      (writeRetry b answers).buf.Front
  | [] => ⟨rfl, hb⟩
  | .interrupted :: rest => writeRetry_spec hb rest
  | .wouldBlock :: _ => ⟨rfl, hb⟩
  | .failed :: _ => ⟨rfl, hb⟩
  | .accepted k :: _ => by
    have hle : min (k + 1) b.length ≤ b.length := Nat.min_le_right _ _
    have hc : load b.data 0 (min (k + 1) b.length) = b.contents.take (min (k + 1) b.length) := by
      rw [IoBuf.contents, hb.head_eq, take_load _ _ hle]
    refine ⟨?_, ?_⟩
    · simp only [writeRetry, hc]
      split_ifs with hpos
      · rw [IoBuf.contents_adjust, IoBuf.contents_pop b hle, List.take_append_drop]
      · have : min (k + 1) b.length = 0 := by omega
        rw [this, List.take_zero, List.nil_append]
    · simp only [writeRetry]
      split_ifs
      · have := hb.length_le
        exact ⟨by simp, by simp; omega⟩
      · exact hb

/-- **The loop of `handle_write`** on a buffer with its bytes in front: the bytes accepted followed
by those left are those there were, and no `assert` fails. -/
theorem drain_spec {r : Option IoBuf} (hr : Front r) (answers : List WriteAnswer) :
    ∃ o, drain r answers = .ok o ∧ o.2.accepted ++ contents o.2.buf = contents r ∧
      Front o.2.buf := by
  refine loop_total drainBody_decreases
    (I := fun s => s.accepted ++ contents s.buf = contents r ∧ Front s.buf)
    (Q := fun o => o.2.accepted ++ contents o.2.buf = contents r ∧ Front o.2.buf) ?_ ⟨rfl, hr⟩
  rintro ⟨buf, acc, ans⟩ ⟨hacc, hf⟩
  simp only at hacc hf
  cases buf with
  | none => exact Or.inr ⟨_, rfl, hacc, hf⟩
  | some b =>
    have hb : b.Front := front_some.mp hf
    obtain ⟨h₁, h₂⟩ := writeRetry_spec hb ans
    have hacc' : (acc ++ (writeRetry b ans).accepted) ++ (writeRetry b ans).buf.contents =
        contents r := by
      rw [List.append_assoc, h₁]
      exact hacc
    by_cases hlen : length (some b) > 0
    · simp only [drainBody, hlen, if_true, write2fd, hb.head_eq, ok_bind]
      split_ifs
      · exact Or.inr ⟨_, rfl, hacc', front_some.mpr h₂⟩
      · exact Or.inr ⟨_, rfl, hacc', front_some.mpr h₂⟩
      · exact Or.inl ⟨_, rfl, hacc', front_some.mpr h₂⟩
    · simp only [drainBody, hlen, if_false]
      exact Or.inr ⟨_, rfl, hacc, hf⟩

end ReactorBuf

end Lars.Reactor
