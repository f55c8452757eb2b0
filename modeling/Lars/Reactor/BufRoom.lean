import Lars.Reactor.ReactorBuf

/-!
# Room in the buffers

`read_data` makes room for the bytes that `FIONREAD` reports. When it reports none, `read_data`
reads nevertheless, and asks for 4096 bytes, whatever room there is. When there is no room for `n`
bytes, `read_data` and `write_data` ask the pool for a buffer of the capacity and `n`, though it has
to hold only the length and `n`.

* `read_data` never asks for more bytes than there is room for if and only if there is room for 4096
  bytes when `FIONREAD` reports none (`noOverrun_iff`).
* Bytes that fit into the largest buffer together with those held are taken if and only if there is
  room for them in the buffer held, or its capacity and they are no more than the largest buffer has
  (`takes_iff`).
-/

namespace Lars.Reactor

open Machine

/-- A `read` of `read_data`: the buffer that it reads into, behind the bytes held, and the number of
bytes that it asks for. -/
structure ReadCall where
  buf : IoBuf
  count : ℕ

namespace ReactorBuf

/-! ## The call of `read` -/

/-- `input_buf::read_data` up to its `read`, when `FIONREAD` has reported `needRead`; `none` if it
returns before. -/
def readCall (r : Option IoBuf) (needRead : ℕ) (p : BufPool) :
    Except Halt (Option ReadCall × BufPool) := do
  let (r, p) ← ensure r needRead p
  match r with
  | none => .ok (none, p)
  | some b =>
    if b.head ≠ 0 then .error .abort
    else
      let (r, p) ← grow b needRead p
      .ok (r.map fun b => ⟨b, if needRead = 0 then MemCap.m4K.size else needRead⟩, p)

/-- `input_buf::read_data` from its `read` on. -/
def readInto (c : ReadCall) (needRead : ℕ) (reads : List ReadAnswer) (p : BufPool) :
    Except Halt (ℤ × Option IoBuf × BufPool) :=
  match readRetry c.count reads with
  | none => .ok (-1, some c.buf, p)
  | some l =>
    if c.buf.capacity < c.buf.length + l.length then .error .undefined
    else if l.length > 0 then
      if needRead ≠ 0 ∧ l.length ≠ needRead then .error .abort
      else .ok (l.length, some (c.buf.append l), p)
    else .ok (0, some c.buf, p)

/-- What `read_data` does up to its `read`, on a buffer with its bytes in front. -/
inductive CallsRead (r : Option IoBuf) (needRead : ℕ) (p : BufPool) : Prop
  /-- There is no buffer; the bytes held are kept. -/
  | refused (r' : Option IoBuf) (p' : BufPool) (h : readCall r needRead p = .ok (none, p'))
      (hread : ∀ reads, readData r ⟨some needRead, reads⟩ p = .ok (-1, r', p')) (hf : Front r')
      (hc : contents r' = contents r)
  | exits (h : readCall r needRead p = .error .exit)
      (hread : ∀ reads, readData r ⟨some needRead, reads⟩ p = .error .exit)
  /-- It is called on a buffer with the bytes held, and room for what was reported. -/
  | calls (b : IoBuf) (p' : BufPool)
      (h : readCall r needRead p =
        .ok (some ⟨b, if needRead = 0 then MemCap.m4K.size else needRead⟩, p'))
      (hread : ∀ reads, readData r ⟨some needRead, reads⟩ p =
        readInto ⟨b, if needRead = 0 then MemCap.m4K.size else needRead⟩ needRead reads p')
      (hf : b.Front) (hc : b.contents = contents r) (hroom : b.length + needRead ≤ b.capacity)

theorem callsRead {r : Option IoBuf} (hr : Front r) (needRead : ℕ) (p : BufPool) :
    CallsRead r needRead p := by
  rcases ensure_cases r needRead p with ⟨he, rfl⟩ | ⟨he, -⟩ | ⟨b, p₁, he, -⟩
  · refine .refused none p ?_ (fun reads => ?_) front_none rfl
    · simp only [readCall, he, ok_bind]
    · simp only [readData, he, ok_bind]
  · refine .exits ?_ fun reads => ?_
    · simp only [readCall, he, error_bind]
    · simp only [readData, he, error_bind]
  · obtain ⟨hf, hc⟩ := ensure_front hr he
    have hf := front_some.mp hf
    rcases grow_front_cases hf needRead p₁ with
      ⟨hg, -⟩ | ⟨hg, -⟩ | ⟨b', p₂, hg, hc', hf', hroom⟩
    · refine .refused (some b) p₁ ?_ (fun reads => ?_) (front_some.mpr hf) hc
      · simp [readCall, he, hf.head_eq, hg]
      · simp [readData, he, hf.head_eq, hg]
    · refine .exits ?_ fun reads => ?_
      · simp [readCall, he, hf.head_eq, hg]
      · simp [readData, he, hf.head_eq, hg]
    · refine .calls b' p₂ ?_ (fun reads => ?_) hf' (hc'.trans hc) hroom
      · simp [readCall, he, hf.head_eq, hg]
      · simp only [readData, he, ok_bind, hf.head_eq, ne_eq, not_true_eq_false, if_false, hg]
        rfl

theorem length_readRetry_le {count : ℕ} : ∀ (reads : List ReadAnswer) {l : List UInt8},
    readRetry count reads = some l → l.length ≤ count
  | .interrupted :: rest, _, h => length_readRetry_le rest h
  | .data l :: _, _, h => by
    obtain rfl := Option.some.inj h
    exact List.length_take_le count l

/-- A `read` that has room for what it asks for appends it. -/
theorem readInto_cases {c : ReadCall} (hf : c.buf.Front)
    (hroom : c.buf.length + c.count ≤ c.buf.capacity) (needRead : ℕ) (reads : List ReadAnswer)
    (p : BufPool) :
    readInto c needRead reads p = .error .abort ∨
    ∃ n b, readInto c needRead reads p = .ok (n, some b, p) ∧ b.Front ∧
      c.buf.contents <+: b.contents := by
  unfold readInto
  cases hgot : readRetry c.count reads with
  | none => exact Or.inr ⟨-1, c.buf, rfl, hf, List.prefix_rfl⟩
  | some l =>
    have hlen := length_readRetry_le reads hgot
    dsimp only
    rw [if_neg (by omega)]
    split_ifs with hpos hne
    · exact Or.inl rfl
    · refine Or.inr ⟨l.length, c.buf.append l, rfl, ⟨hf.head_eq, ?_⟩, ?_⟩
      · change c.buf.length + l.length ≤ c.buf.capacity
        omega
      · rw [IoBuf.contents_append hf.head_eq]
        exact List.prefix_append _ _
    · exact Or.inr ⟨0, c.buf, rfl, hf, List.prefix_rfl⟩

/-- A `read` that gets what has been reported appends it. -/
theorem readInto_chunk {b : IoBuf} {l : List UInt8} (hroom : b.length + l.length ≤ b.capacity)
    (hl : l ≠ []) (n : ℕ) (p : BufPool) :
    readInto ⟨b, l.length⟩ l.length (List.replicate n .interrupted ++ [.data l]) p =
      .ok (l.length, some (b.append l), p) := by
  have hpos : 0 < l.length := List.length_pos_iff.mpr hl
  rw [readInto, readRetry_chunk]
  simp only [hroom.not_gt, if_false, hpos, if_true, ne_eq, not_true_eq_false, and_false]

/-! ## Reading -/

/-- `read_data` stays within the buffer when `FIONREAD` has reported `needRead`, whatever there is
to be read then. -/
structure NoOverrun (r : Option IoBuf) (needRead : ℕ) (p : BufPool) : Prop where
  /-- No more bytes are asked for than there is room for. -/
  count_le : ∀ c p', readCall r needRead p = .ok (some c, p') →
    c.buf.length + c.count ≤ c.buf.capacity
  defined : ∀ reads, readData r ⟨some needRead, reads⟩ p ≠ .error .undefined
  /-- The buffer is within its block, and what it has held is in front. -/
  front : ∀ reads n r' p', readData r ⟨some needRead, reads⟩ p = .ok (n, r', p') →
    Front r' ∧ contents r <+: contents r'

/-- If nothing is reported, there is room for 4096 bytes. -/
def RoomForUnreported (r : Option IoBuf) (needRead : ℕ) : Prop :=
  needRead = 0 → ∀ b, r = some b → b.length + MemCap.m4K.size ≤ b.capacity

/-- With nothing reported, the buffer is read into as it is. -/
theorem readCall_zero {b : IoBuf} (hb : b.Front) (p : BufPool) :
    readCall (some b) 0 p = .ok (some ⟨b, MemCap.m4K.size⟩, p) := by
  have hle := hb.length_le
  simp [readCall, ensure, grow, hb.head_eq, hle.not_gt]

/-- A buffer that `read` is called on has room for what is asked for, if there is room for what is
not reported. -/
theorem count_le_of_room {r : Option IoBuf} (hr : Front r) {needRead : ℕ} {b : IoBuf}
    {p p' : BufPool} {count : ℕ} (h : readCall r needRead p = .ok (some ⟨b, count⟩, p'))
    (hc : b.contents = contents r) (hreported : b.length + needRead ≤ b.capacity)
    (hcount : count = if needRead = 0 then MemCap.m4K.size else needRead)
    (hroom : RoomForUnreported r needRead) : b.length + count ≤ b.capacity := by
  subst hcount
  split_ifs with hzero
  · subst hzero
    cases r with
    | none =>
      have hlen : b.length = 0 := by
        rw [← b.length_contents, hc]
        rfl
      have hcap := MemCap.le_size b.cap
      rw [hlen, Nat.zero_add]
      exact hcap
    | some b₀ =>
      cases (readCall_zero (front_some.mp hr) p).symm.trans h
      exact hroom rfl b rfl
  · exact hreported

/-- **No overrun**: `read_data` stays within the buffer, whatever the kernel answers, if and only if
there is room for 4096 bytes when nothing is reported. -/
theorem noOverrun_iff {r : Option IoBuf} (hr : Front r) (needRead : ℕ) (p : BufPool) :
    NoOverrun r needRead p ↔ RoomForUnreported r needRead := by
  constructor
  · rintro h rfl b rfl
    exact h.count_le _ p (readCall_zero (front_some.mp hr) p)
  intro hroom
  cases callsRead hr needRead p with
  | refused r' p' h hread hf hc =>
    refine ⟨fun c p'' h' => ?_, fun reads h' => ?_, fun reads n r'' p'' h' => ?_⟩
    · cases h.symm.trans h'
    · cases (hread reads).symm.trans h'
    · cases (hread reads).symm.trans h'
      exact ⟨hf, hc ▸ List.prefix_rfl⟩
  | exits h hread =>
    refine ⟨fun c p'' h' => ?_, fun reads h' => ?_, fun reads n r'' p'' h' => ?_⟩
    · cases h.symm.trans h'
    · cases (hread reads).symm.trans h'
    · cases (hread reads).symm.trans h'
  | calls b p' h hread hf hc hreported =>
    have hcount := count_le_of_room hr h hc hreported rfl hroom
    have hinto := fun reads => readInto_cases (c := ⟨b, _⟩) hf hcount needRead reads p'
    refine ⟨fun c p'' h' => ?_, fun reads h' => ?_, fun reads n r'' p'' h' => ?_⟩
    · cases h.symm.trans h'
      exact hcount
    · rcases hinto reads with hi | ⟨n, b', hi, -⟩ <;>
        cases hi.symm.trans ((hread reads).symm.trans h')
    · rcases hinto reads with hi | ⟨n, b', hi, hf', hpre⟩ <;>
        cases hi.symm.trans ((hread reads).symm.trans h')
      exact ⟨front_some.mpr hf', hc ▸ hpre⟩

/-- A byte in a buffer of 4K. -/
def oneByte : IoBuf := (IoBuf.new .m4K fun _ => 0).append [0]

theorem noOverrun_iff_reported :
    NoOverrun (some oneByte) 1 (.ofCounts fun _ => 1) ↔ RoomForUnreported (some oneByte) 1 :=
  noOverrun_iff (front_some.mpr ⟨rfl, by decide⟩) 1 _

/-- A byte is held in a buffer of 4K, nothing is reported, and 4096 bytes have come. -/
theorem readData_oneByte {l : List UInt8} (hl : 4096 ≤ l.length) (p : BufPool) :
    readData (some oneByte) ⟨some 0, [.data l]⟩ p = .error .undefined := by
  have hread : readData (some oneByte) ⟨some 0, [.data l]⟩ p =
      readInto ⟨oneByte, MemCap.m4K.size⟩ 0 [.data l] p := rfl
  have hlen : (l.take MemCap.m4K.size).length = 4096 := List.length_take_of_le hl
  rw [hread, readInto]
  simp only [readRetry, hlen]
  exact if_pos (by decide)

/-- A byte is held in a buffer of 4K, nothing is reported, and 4096 bytes are asked for. When so
many have come they are written past the end of the block. -/
theorem not_noOverrun :
    (¬ ∀ (r : Option IoBuf) (needRead : ℕ) (p : BufPool), Front r → NoOverrun r needRead p) ∧
    ∀ (l : List UInt8) (p : BufPool), 4096 ≤ l.length →
      readData (some oneByte) ⟨some 0, [.data l]⟩ p = .error .undefined := by
  have hf : oneByte.Front := ⟨rfl, by decide⟩
  refine ⟨fun hall => ?_, fun l p hl => readData_oneByte hl p⟩
  have h := (hall (some oneByte) 0 (.ofCounts fun _ => 1) (front_some.mpr hf)).count_le _ _
    (readCall_zero hf _)
  exact absurd h (by decide)

/-! ## Growing -/

/-- `alloc_buf` succeeds for every request from 0 to `m8M`. -/
def Supplies (p : BufPool) : Prop :=
  ∀ N : ℤ, 0 ≤ N → N ≤ MemCap.m8M.size → ∃ b p', p.allocBuf N = .ok (some b, p')

/-- `write_data` and `read_data` take the bytes and put them behind those held. -/
structure Takes (r : Option IoBuf) (l : List UInt8) (p : BufPool) : Prop where
  write : ∃ b p', writeData r l p = .ok (l.length, some b, p') ∧ b.contents = contents r ++ l
  /-- Reading does not fail for want of a buffer. -/
  call : l ≠ [] → ∃ b p', readCall r l.length p = .ok (some ⟨b, l.length⟩, p')
  read : l ≠ [] → ∀ n, ∃ b p', readData r (.chunk n l) p = .ok (l.length, some b, p') ∧
    b.contents = contents r ++ l

/-- There is room for `n` more bytes, or the capacity and `n` are no more than the largest buffer
has. -/
def Growable (r : Option IoBuf) (n : ℕ) : Prop :=
  ∀ b, r = some b → b.length + n ≤ b.capacity ∨ b.capacity + n ≤ MemCap.m8M.size

/-- A pool that supplies all requests makes room for bytes that are not too many. -/
theorem exists_grow {r : Option IoBuf} (hr : Front r) {n : ℕ} {p : BufPool} (hp : Supplies p)
    (hfit : length r + n ≤ MemCap.m8M.size) (hgrow : Growable r n) :
    ∃ b p₁ b' p₂, ensure r n p = .ok (some b, p₁) ∧ grow b n p₁ = .ok (some b', p₂) := by
  cases r with
  | none =>
    have hn : n ≤ MemCap.m8M.size := (Nat.le_add_left n _).trans hfit
    obtain ⟨b, p₁, ha⟩ := hp n (by omega) (by exact_mod_cast hn)
    rcases p.allocBuf_cases n with ⟨ha', -⟩ | ⟨ha', -⟩ | ⟨b', p', ha', -, hcap, hlen, -⟩ <;>
      cases ha.symm.trans ha'
    have hroom : b.length + n ≤ b.capacity := by omega
    exact ⟨b, p₁, b, p₁, ha, grow_of_room hroom p₁⟩
  | some b =>
    by_cases hroom : b.length + n ≤ b.capacity
    · exact ⟨b, p, b, p, rfl, grow_of_room hroom p⟩
    · have hcap := (hgrow b rfl).resolve_left hroom
      obtain ⟨b', p', ha⟩ := hp (b.capacity + n) (by omega) (by exact_mod_cast hcap)
      have hf := front_some.mp hr
      have hwithin : ¬ b.capacity < b.head + b.length := by
        rw [hf.head_eq, Nat.zero_add]
        exact hf.length_le.not_gt
      refine ⟨b, p, b'.copy b, p'.revert b, rfl, ?_⟩
      rw [grow, if_pos (by omega), ha, ok_bind]
      exact if_neg hwithin

theorem Takes.growable {r : Option IoBuf} {l : List UInt8} {p : BufPool} (h : Takes r l p) :
    Growable r l.length := by
  rintro b rfl
  obtain ⟨b', p', hw, -⟩ := h.write
  obtain ⟨b₁, p₁, hg, -⟩ := writeData_some hw (by omega)
  rcases grow_same_or_moved hg with ⟨hroom, -⟩ | ⟨-, -, hcap, -⟩
  · exact Or.inl hroom
  · exact Or.inr hcap

/-- **Growing**: bytes that fit into the largest buffer together with those held are taken by
`write_data` and `read_data` if and only if there is room for them in the buffer held, or its
capacity and they are no more than the largest buffer has. -/
theorem takes_iff {r : Option IoBuf} (hr : Front r) {l : List UInt8} {p : BufPool}
    (hp : Supplies p) (hfit : length r + l.length ≤ MemCap.m8M.size) :
    Takes r l p ↔ Growable r l.length := by
  refine ⟨fun h => h.growable, fun hgrow => ?_⟩
  obtain ⟨b, p₁, b', p₂, he, hg⟩ := exists_grow hr hp hfit hgrow
  have hf : b.Front := front_some.mp (ensure_front hr he).1
  have hwrite : writeData r l p = .ok (l.length, some (b'.append l), p₂) := by
    simp only [writeData, he, ok_bind, hg]
  have hcall : readCall r l.length p =
      .ok (some ⟨b', if l.length = 0 then MemCap.m4K.size else l.length⟩, p₂) := by
    simp [readCall, he, hf.head_eq, hg]
  refine ⟨⟨_, p₂, hwrite, (writeData_front hr hwrite (by omega)).2⟩, fun hl => ?_, fun hl n => ?_⟩
  · exact ⟨b', p₂, by rw [hcall, if_neg (by simpa using hl)]⟩
  · cases callsRead hr l.length p with
    | refused _ _ h => cases hcall.symm.trans h
    | exits h => cases hcall.symm.trans h
    | calls b'' p' _ hread hf' hc hroom =>
      refine ⟨b''.append l, p', ?_, ?_⟩
      · rw [KernelRead.chunk, hread, if_neg (by simpa using hl), readInto_chunk hroom hl]
      · rw [IoBuf.contents_append hf'.head_eq, hc]

/-- Pools with a buffer of each size supply all requests. -/
theorem supplies_ofCounts {n : MemCap → ℕ} (hn : ∀ c, n c ≠ 0) : Supplies (.ofCounts n) := by
  intro N hlo hhi
  have hsome : BufPool.index N ≠ none := fun h =>
    (BufPool.index_eq_none_iff.mp h).elim (fun h => by omega) (fun h => by omega)
  obtain ⟨c, hc⟩ := Option.ne_none_iff_exists'.mp hsome
  obtain ⟨k, hk⟩ := Nat.exists_eq_succ_of_ne_zero (hn c)
  have hlist : (BufPool.ofCounts n).pool c =
      IoBuf.new c (fun _ => 0) :: List.replicate k (IoBuf.new c fun _ => 0) := by
    simp only [BufPool.ofCounts, hk, List.replicate_succ]
  obtain ⟨p', ha, -⟩ := BufPool.allocBuf_of_cons hc hlist
  exact ⟨_, p', ha⟩

theorem takes_iff_room :
    Takes (some oneByte) [97] (.ofCounts fun _ => 1) ↔ Growable (some oneByte) 1 :=
  takes_iff (front_some.mpr ⟨rfl, by decide⟩) (supplies_ofCounts fun _ => by decide) (by decide)

/-- A byte is held in a buffer of 4K, and one less than 8M are to follow; a buffer of more than 8M
is asked for. -/
theorem not_takes :
    ¬ ∀ (r : Option IoBuf) (l : List UInt8) (p : BufPool), Front r → Supplies p →
      length r + l.length ≤ MemCap.m8M.size → Takes r l p := by
  intro hall
  have hlen : (List.replicate 8388607 (97 : UInt8)).length = 8388607 := List.length_replicate
  have h := hall (some oneByte) (List.replicate 8388607 97) (.ofCounts fun _ => 1)
    (front_some.mpr ⟨rfl, by decide⟩) (supplies_ofCounts fun _ => by decide)
    (by rw [hlen]; decide)
  have hgrow := h.growable oneByte rfl
  rw [hlen] at hgrow
  exact absurd hgrow (by decide)

end ReactorBuf

end Lars.Reactor
