import Lars.Reactor.BufConserved

/-!
# The buffers in memory and as values

The model of a connection has its buffers as values, in a pool of lists. It is what the buffers in
memory show: the operation on the memory does what the operation on values does, with the same
result or for the same end of the process (`readData_refines` and the others), as long as the sizes
are of type `int`. The buffers of other objects stay as they are.

For any number of objects, what happens on values in a run happens in memory (`run_refines`).
-/

namespace Lars.Reactor

open Machine

namespace BufHeap

/-- The node at `a` holds the buffer `b`, which is within its block. -/
structure Shows (h : BufHeap) (a : ℕ) (b : IoBuf) : Prop where
  value : (h.nodes a).value b.cap = b
  capacity : (h.nodes a).capacity = b.cap.size
  within : b.length ≤ b.capacity

theorem Shows.congr {h h' : BufHeap} {a : ℕ} {v : IoBuf} (hv : h.Shows a v)
    (hnode : h'.nodes a = h.nodes a) : h'.Shows a v := by
  refine ⟨?_, ?_, hv.within⟩
  · rw [hnode, hv.value]
  · rw [hnode, hv.capacity]

/-- An object's buffer in memory is `buf` and as a value `b`, the pool of values is `p`, and the
buffers `others` of the other objects are as in `h₀`. -/
structure Sim (h₀ : BufHeap) (others : Set ℕ) (buf : Option ℕ) (h : BufHeap) (b : Option IoBuf)
    (p : BufPool) : Prop where
  apart : ∀ a, buf = some a → a ∉ others
  pooled : ∃ free, h.Pooled free (others ∪ {a | buf = some a}) ∧ h.Represents free p
  shows : Option.Rel h.Shows buf b
  frame : ∀ a ∈ others, h.nodes a = h₀.nodes a

variable {h₀ h : BufHeap} {others : Set ℕ} {buf : Option ℕ} {b : Option IoBuf} {p : BufPool}
  {a : ℕ} {v : IoBuf}

theorem sim_none : Sim h₀ others none h none p ↔
    (∃ free, h.Pooled free others ∧ h.Represents free p) ∧
      ∀ a ∈ others, h.nodes a = h₀.nodes a := by
  constructor
  · intro hs
    have hp := hs.pooled
    rw [union_none] at hp
    exact ⟨hp, hs.frame⟩
  · rintro ⟨hp, hframe⟩
    refine ⟨fun a ha => (nomatch ha), ?_, .none, hframe⟩
    rwa [union_none]

theorem sim_some : Sim h₀ others (some a) h (some v) p ↔
    a ∉ others ∧ (∃ free, h.Pooled free (insert a others) ∧ h.Represents free p) ∧
      h.Shows a v ∧ ∀ a ∈ others, h.nodes a = h₀.nodes a := by
  constructor
  · rintro ⟨hapart, hp, hshows, hframe⟩
    rw [union_some] at hp
    cases hshows with
    | some hv => exact ⟨hapart a rfl, hp, hv, hframe⟩
  · rintro ⟨hapart, hp, hv, hframe⟩
    refine ⟨fun a' ha' => Option.some.inj ha' ▸ hapart, ?_, .some hv, hframe⟩
    rwa [union_some]

theorem Sim.rebase {h₁ : BufHeap} (hs : Sim h₁ others buf h b p)
    (hframe : ∀ a ∈ others, h₁.nodes a = h₀.nodes a) : Sim h₀ others buf h b p :=
  ⟨hs.apart, hs.pooled, hs.shows, fun a ha => (hs.frame a ha).trans (hframe a ha)⟩

/-- A change to the object's buffer that is the change `g` to its value. -/
theorem Sim.modify (hs : Sim h₀ others (some a) h (some v) p) {f : BufNode → BufNode}
    {v' : IoBuf} (hv : (f (h.nodes a)).value v.cap = v')
    (hcap : (f (h.nodes a)).capacity = (h.nodes a).capacity) (hcap' : v'.cap = v.cap)
    (hwithin : v'.length ≤ v'.capacity) :
    Sim h₀ others (some a) (h.modify a f) (some v') p := by
  obtain ⟨ha, ⟨free, hp, hr⟩, hshows, hframe⟩ := sim_some.mp hs
  have hnodes : ∀ c, c ≠ a → (h.modify a f).nodes c = h.nodes c := fun c hc =>
    nodes_modify_of_ne hc h f
  refine sim_some.mpr ⟨ha, ⟨free, hp.modify (Set.mem_insert a others) hcap, ?_⟩, ⟨?_, ?_, hwithin⟩,
    fun c hc => ?_⟩
  · exact hr.frame fun m c hc =>
      hnodes c (ne_of_mem_of_not_mem hc (hp.apart a (Set.mem_insert a others) _))
  · rw [nodes_modify_self, hcap', hv]
  · rw [nodes_modify_self, hcap, hshows.capacity, hcap']
  · rw [hnodes c (ne_of_mem_of_not_mem hc ha), hframe c hc]

/-- The process ends for the same reason. -/
def SameEnd (t : Halt) (t' : HeapHalt) : Prop := t' = .halt t

/-- **`alloc_buf`**; what it gives has room for what was asked for. -/
theorem allocBuf_refines (hs : Sim h₀ others none h none p) (N : ℤ) :
    Refines (fun o o' => Sim h₀ others o'.1 o'.2 o.1 o.2 ∧ ∀ v, o.1 = some v → N ≤ v.capacity)
      SameEnd (p.allocBuf N) (h.allocBuf N) := by
  obtain ⟨⟨free, hp, hr⟩, hframe⟩ := sim_none.mp hs
  rcases hp.allocBuf_refines hr N with ⟨hpa, hha⟩ | ⟨hpa, hha⟩ |
    ⟨a, v, h', free', p', hpa, hha, hout, hvalue, hcap, hnodes, hp', hr'⟩
  · rw [hpa, hha]
    exact refines_ok ⟨hs, fun v hv => nomatch hv⟩
  · rw [hpa, hha]
    exact refines_error rfl
  · obtain ⟨hlen, hN⟩ : v.length = 0 ∧ N ≤ v.capacity := by
      rcases p.allocBuf_cases N with ⟨ha, -⟩ | ⟨ha, -⟩ | ⟨v', p'', ha, -, hN, hlen, -⟩ <;>
        cases ha.symm.trans hpa
      exact ⟨hlen, hN⟩
    rw [hpa, hha]
    refine refines_ok ⟨sim_some.mpr ⟨hout, ⟨free', hp', hr'⟩, ⟨hvalue, hcap, by omega⟩, ?_⟩, ?_⟩
    · intro c hc
      rw [hnodes c (ne_of_mem_of_not_mem hc hout), hframe c hc]
    · intro v' hv'
      cases hv'
      exact hN

/-- **`revert`.** -/
theorem Sim.revert (hs : Sim h₀ others (some a) h (some v) p) :
    ∃ h', h.revert a = .ok h' ∧ Sim h₀ others none h' none (p.revert v) := by
  obtain ⟨ha, ⟨free, hp, hr⟩, hshows, hframe⟩ := sim_some.mp hs
  obtain ⟨h', free', hrev, hp', hr', hnodes⟩ :=
    hp.revert_refines hr (Set.mem_insert a others) hshows.value hshows.capacity
  rw [Set.insert_sdiff_self_of_notMem ha] at hp'
  refine ⟨h', hrev, sim_none.mpr ⟨⟨free', hp', hr'⟩, fun c hc => ?_⟩⟩
  rw [hnodes c (ne_of_mem_of_not_mem hc ha), hframe c hc]

theorem toInt_of_lt {n : ℤ} (h₁ : -2 ^ 31 ≤ n) (h₂ : n < 2 ^ 31) : toInt n = n := by
  rw [toInt, Int.bmod_def]
  omega

/-- A sum beyond the range of `int` is refused, negative or not. -/
theorem index_toInt {n : ℤ} (h₁ : 0 ≤ n) (h₂ : n < 2 ^ 32) :
    BufPool.index (toInt n) = BufPool.index n := by
  by_cases hn : n < 2 ^ 31
  · rw [toInt_of_lt (by omega) hn]
  · have hneg : toInt n < 0 := by
      rw [toInt, Int.bmod_def]
      omega
    have hlarge : (MemCap.m8M.size : ℤ) < n := by
      change (8388608 : ℤ) < n
      omega
    rw [BufPool.index_eq_none_iff.mpr (Or.inl hneg), BufPool.index_eq_none_iff.mpr (Or.inr hlarge)]

theorem allocBuf_toInt {n : ℤ} (h₁ : 0 ≤ n) (h₂ : n < 2 ^ 32) (h : BufHeap) :
    h.allocBuf (toInt n) = h.allocBuf n := by
  unfold allocBuf
  rw [index_toInt h₁ h₂]

theorem length_eq_of_shows (hv : h.Shows a v) : (h.nodes a).length = v.length :=
  congrArg IoBuf.length hv.value

theorem head_eq_of_shows (hv : h.Shows a v) : (h.nodes a).head = v.head :=
  congrArg IoBuf.head hv.value

/-- A larger buffer `b` takes over the bytes of `a`, which goes back to the pool. -/
theorem Sim.move {b : ℕ} {v' : IoBuf} (hs : Sim h₀ (insert a others) (some b) h (some v') p)
    (ha : a ∉ others) (hv : h.Shows a v) (hroom : v.length ≤ v'.capacity) :
    ∃ h', (h.modify b fun n => n.copy (h.nodes a)).revert a = .ok h' ∧
      Sim h others (some b) h' (some (v'.copy v)) (p.revert v) := by
  obtain ⟨-, -, hv', -⟩ := sim_some.mp hs
  have hvalue : ((h.nodes b).copy (h.nodes a)).value v'.cap = v'.copy v := by
    rw [BufNode.value_copy _ _ _ v.cap, hv'.value, hv.value]
  have hcopied := hs.modify (f := fun n => n.copy (h.nodes a)) hvalue rfl rfl hroom
  obtain ⟨hb, ⟨free, hp, hr⟩, hshows, -⟩ := sim_some.mp hcopied
  have hab : a ≠ b := fun hab => hb (hab ▸ Set.mem_insert a others)
  have hnode : (h.modify b fun n => n.copy (h.nodes a)).nodes a = h.nodes a :=
    nodes_modify_of_ne hab h _
  -- Now the object is the one that holds `a`, and `b` is with the others.
  have hswap : Sim (h.modify b fun n => n.copy (h.nodes a)) (insert b others) (some a)
      (h.modify b fun n => n.copy (h.nodes a)) (some v) p := by
    refine sim_some.mpr ⟨?_, ⟨free, ?_, hr⟩, ?_, fun c _ => rfl⟩
    · rintro (hab' | hmem)
      · exact hab hab'
      · exact ha hmem
    · rwa [Set.insert_comm]
    · exact hv.congr hnode
  obtain ⟨h', hrev, hs'⟩ := hswap.revert
  obtain ⟨hp', hframe'⟩ := sim_none.mp hs'
  have hb' := hframe' b (Set.mem_insert b others)
  refine ⟨h', hrev, sim_some.mpr ⟨fun hmem => hb (Set.mem_insert_of_mem a hmem), hp', ?_, ?_⟩⟩
  · exact hshows.congr hb'
  · intro c hc
    have hcb : c ≠ b := fun hcb => hb (hcb ▸ Set.mem_insert_of_mem a hc)
    rw [hframe' c (Set.mem_insert_of_mem b hc), nodes_modify_of_ne hcb]

/-- The results of the second step of `read_data` and of `write_data` for `n` bytes: without a new
buffer the object keeps the one it has. -/
inductive Grown (h₀ : BufHeap) (others : Set ℕ) (a : ℕ) (v : IoBuf) (n : ℕ) :
    Option IoBuf × BufPool → Option ℕ × BufHeap → Prop
  | kept {h : BufHeap} {p : BufPool} (hs : Sim h₀ others (some a) h (some v) p) :
    Grown h₀ others a v n (none, p) (none, h)
  | room {h : BufHeap} {p : BufPool} {a' : ℕ} {v' : IoBuf}
      (hs : Sim h₀ others (some a') h (some v') p) (hroom : v'.length + n ≤ v'.capacity) :
    Grown h₀ others a v n (some v', p) (some a', h)

/-- **The second step of `read_data` and of `write_data`.** -/
theorem grow_refines (hs : Sim h₀ others (some a) h (some v) p) {n : ℕ} (hn : n < 2 ^ 31) :
    Refines (Grown h₀ others a v n) SameEnd (ReactorBuf.grow v n p) (grow a n h) := by
  obtain ⟨ha, hp, hshows, hframe⟩ := sim_some.mp hs
  have hlen := length_eq_of_shows hshows
  have hcap := hshows.capacity
  have hwithin := hshows.within
  have hsize : v.capacity ≤ 8388608 := v.cap.size_le
  have hroom : toInt ((h.nodes a).capacity - (h.nodes a).length) = v.capacity - v.length := by
    rw [hlen, hcap]
    change toInt (v.capacity - v.length) = _
    exact toInt_of_lt (by omega) (by omega)
  have hask : h.allocBuf (toInt ((h.nodes a).capacity + n)) = h.allocBuf (v.capacity + n) := by
    rw [hcap]
    exact allocBuf_toInt (by omega) (by change (v.capacity : ℤ) + n < 2 ^ 32; omega) h
  rw [ReactorBuf.grow, grow, hroom, hask]
  by_cases hlt : (v.capacity : ℤ) - v.length < n
  · rw [if_pos hlt, if_pos hlt]
    -- While both buffers are out, `a` counts among those of the others.
    have hout : Sim h (insert a others) none h none p := sim_none.mpr ⟨hp, fun _ _ => rfl⟩
    refine (allocBuf_refines hout _).bind ?_
    rintro ⟨newBuf, p₁⟩ ⟨newBuf', h₁⟩ ⟨hs₁, hbig⟩
    have hframe₁ : ∀ c ∈ insert a others, h₁.nodes c = h.nodes c := hs₁.frame
    have hnode : h₁.nodes a = h.nodes a := hframe₁ a (Set.mem_insert a others)
    have hshows₁ : h₁.Shows a v := hshows.congr hnode
    have hframe₁' : ∀ c ∈ others, h₁.nodes c = h₀.nodes c := fun c hc =>
      (hframe₁ c (Set.mem_insert_of_mem a hc)).trans (hframe c hc)
    cases newBuf with
    | none =>
      cases newBuf' with
      | none =>
        exact refines_ok (.kept (sim_some.mpr ⟨ha, (sim_none.mp hs₁).1, hshows₁, hframe₁'⟩))
      | some b => cases hs₁.shows
    | some v' =>
      cases newBuf' with
      | none => cases hs₁.shows
      | some b =>
        have hbig' : (v.capacity : ℤ) + n ≤ v'.capacity := hbig v' rfl
        obtain ⟨h', hrev, hs'⟩ := hs₁.move ha hshows₁ (by omega)
        dsimp only
        rw [hshows₁.capacity, length_eq_of_shows hshows₁, head_eq_of_shows hshows₁]
        change Refines _ _ (if v.cap.size < v.head + v.length then _ else _) _
        by_cases hover : v.cap.size < v.head + v.length
        · rw [if_pos hover, if_pos hover]
          exact refines_error rfl
        rw [if_neg hover, if_neg hover, hrev, ok_bind]
        refine refines_ok (.room (hs'.rebase hframe₁') ?_)
        change v.length + n ≤ v'.capacity
        omega
  · rw [if_neg hlt, if_neg hlt]
    exact refines_ok (.room hs (by omega))

theorem Sim.cases (hs : Sim h₀ others buf h b p) :
    (buf = none ∧ b = none) ∨ ∃ a v, buf = some a ∧ b = some v := by
  cases hs.shows with
  | none => exact Or.inl ⟨rfl, rfl⟩
  | some _ => exact Or.inr ⟨_, _, rfl, rfl⟩

/-- **`clear`.** -/
theorem Sim.clear (hs : Sim h₀ others buf h b p) :
    ∃ h', BufHeap.clear buf h = .ok (none, h') ∧
      Sim h₀ others none h' none (ReactorBuf.clear b p) := by
  rcases hs.cases with ⟨rfl, rfl⟩ | ⟨a, v, rfl, rfl⟩
  · exact ⟨h, rfl, hs⟩
  · obtain ⟨h', hrev, hs'⟩ := hs.revert
    refine ⟨h', ?_, hs'⟩
    rw [BufHeap.clear, hrev]
    rfl

/-- Bytes are dropped at the front of a buffer. -/
theorem Sim.popped (hs : Sim h₀ others (some a) h (some v) p) (len : ℕ) :
    Sim h₀ others (some a) (h.modify a fun n => n.pop len) (some (v.pop len)) p := by
  obtain ⟨-, -, hshows, -⟩ := sim_some.mp hs
  refine hs.modify ?_ rfl rfl ((Nat.sub_le ..).trans hshows.within)
  rw [BufNode.value_pop, hshows.value]

/-- **`pop`.** -/
theorem pop_refines (hs : Sim h₀ others buf h b p) (len : ℕ) :
    Refines (fun o o' => Sim h₀ others o'.1 o'.2 o.1 o.2) SameEnd (ReactorBuf.pop b len p)
      (pop buf len h) := by
  rcases hs.cases with ⟨rfl, rfl⟩ | ⟨a, v, rfl, rfl⟩
  · exact refines_error rfl
  · obtain ⟨-, -, hshows, -⟩ := sim_some.mp hs
    have hlen := length_eq_of_shows hshows
    have hwithin := hshows.within
    have hsize : v.capacity ≤ 8388608 := v.cap.size_le
    have hint : toInt (h.nodes a).length = v.length := by
      rw [hlen]
      exact toInt_of_lt (by omega) (by omega)
    have hpopped := hs.popped len
    have hlen' : ((h.modify a fun n => n.pop len).nodes a).length = (v.pop len).length := by
      rw [nodes_modify_self]
      change (h.nodes a).length - len = v.length - len
      rw [hlen]
    simp only [ReactorBuf.pop, pop, hint, Nat.cast_le, hlen']
    split_ifs
    · exact refines_ok hpopped
    · obtain ⟨h', hrev, hs'⟩ := hpopped.revert
      rw [hrev]
      exact refines_ok hs'
    · exact refines_error rfl

/-- **The first step of `read_data` and of `write_data`.** -/
theorem ensure_refines (hs : Sim h₀ others buf h b p) (n : ℕ) :
    Refines (fun o o' => Sim h₀ others o'.1 o'.2 o.1 o.2) SameEnd (ReactorBuf.ensure b n p)
      (ensure buf n h) := by
  rcases hs.cases with ⟨rfl, rfl⟩ | ⟨a, v, rfl, rfl⟩
  · exact (allocBuf_refines hs n).imp fun _ _ ho => ho.1
  · exact refines_ok hs

/-- The bytes that are put behind those of a buffer with room for them. -/
theorem Sim.append (hs : Sim h₀ others (some a) h (some v) p) {l : List UInt8}
    (hl : v.length + l.length ≤ v.capacity) :
    Sim h₀ others (some a) (h.modify a fun n => n.append l) (some (v.append l)) p := by
  obtain ⟨-, -, hshows, -⟩ := sim_some.mp hs
  refine hs.modify ?_ rfl rfl hl
  rw [BufNode.value_append, hshows.value]

/-- **`write_data`.** -/
theorem writeData_refines (hs : Sim h₀ others buf h b p) {data : List UInt8}
    (hdata : data.length < 2 ^ 31) :
    Refines (fun o o' => o.1 = o'.1 ∧ Sim h₀ others o'.2.1 o'.2.2 o.2.1 o.2.2) SameEnd
      (ReactorBuf.writeData b data p) (writeData buf data h) := by
  refine (ensure_refines hs data.length).bind ?_
  rintro ⟨b₁, p₁⟩ ⟨buf₁, h₁⟩ hs₁
  rcases hs₁.cases with ⟨hn, hn'⟩ | ⟨a, v, ha, hv⟩
  · simp only at hn hn'
    subst hn hn'
    exact refines_ok ⟨rfl, hs₁⟩
  · simp only at ha hv
    subst ha hv
    refine (grow_refines hs₁ hdata).bind ?_
    rintro _ _ (hs₂ | ⟨hs₂, hroom⟩)
    · exact refines_ok ⟨rfl, hs₂⟩
    · exact refines_ok ⟨rfl, hs₂.append hroom⟩

/-- **`read_data`.** -/
theorem readData_refines (hs : Sim h₀ others buf h b p) {k : KernelRead}
    (hk : ∀ n, k.fionread = some n → n < 2 ^ 31) :
    Refines (fun o o' => o.1 = o'.1 ∧ Sim h₀ others o'.2.1 o'.2.2 o.2.1 o.2.2) SameEnd
      (ReactorBuf.readData b k p) (readData buf k h) := by
  unfold ReactorBuf.readData readData
  cases hfion : k.fionread with
  | none => exact refines_ok ⟨rfl, hs⟩
  | some needRead =>
    dsimp only
    generalize ReactorBuf.readRetry _ k.reads = got
    refine (ensure_refines hs needRead).bind ?_
    rintro ⟨b₁, p₁⟩ ⟨buf₁, h₁⟩ hs₁
    rcases hs₁.cases with ⟨hn, hn'⟩ | ⟨a, v, ha, hv⟩
    · simp only at hn hn'
      subst hn hn'
      exact refines_ok ⟨rfl, hs₁⟩
    simp only at ha hv
    subst ha hv
    obtain ⟨-, -, hshows, -⟩ := sim_some.mp hs₁
    dsimp only
    rw [head_eq_of_shows hshows]
    by_cases hhead : v.head ≠ 0
    · rw [if_pos hhead, if_pos hhead]
      exact refines_error rfl
    rw [if_neg hhead, if_neg hhead]
    refine (grow_refines hs₁ (hk needRead hfion)).bind ?_
    rintro _ _ (hs₂ | @⟨h₂, p₂, a', v', hs₂, -⟩)
    · exact refines_ok ⟨rfl, hs₂⟩
    cases got with
    | none => exact refines_ok ⟨rfl, hs₂⟩
    | some l =>
      obtain ⟨-, -, hshows₂, -⟩ := sim_some.mp hs₂
      dsimp only
      rw [hshows₂.capacity, length_eq_of_shows hshows₂]
      change Refines _ _ (if v'.cap.size < v'.length + l.length then _ else _) _
      by_cases hover : v'.cap.size < v'.length + l.length
      · rw [if_pos hover, if_pos hover]
        exact refines_error rfl
      rw [if_neg hover, if_neg hover]
      split_ifs with hpos hne
      · exact refines_error rfl
      · exact refines_ok ⟨rfl, hs₂.append (Nat.le_of_not_lt hover)⟩
      · exact refines_ok ⟨rfl, hs₂⟩

/-- **`adjust`.** -/
theorem Sim.adjust (hs : Sim h₀ others buf h b p) :
    Sim h₀ others buf (BufHeap.adjust buf h) (ReactorBuf.adjust b) p := by
  rcases hs.cases with ⟨rfl, rfl⟩ | ⟨a, v, rfl, rfl⟩
  · exact hs
  · obtain ⟨-, -, hshows, -⟩ := sim_some.mp hs
    refine hs.modify ?_ (BufNode.capacity_adjust _) v.cap_adjust ?_
    · rw [BufNode.value_adjust, hshows.value]
    · rw [IoBuf.length_adjust, IoBuf.capacity_adjust]
      exact hshows.within

/-- A `write` and its retries. -/
theorem Sim.writeRetry (hs : Sim h₀ others (some a) h (some v) p) : ∀ answers : List WriteAnswer,
    (ReactorBuf.writeRetry v answers).hasWrite = (BufHeap.writeRetry a h answers).1 ∧
      Sim h₀ others (some a) (BufHeap.writeRetry a h answers).2
        (some (ReactorBuf.writeRetry v answers).buf) p
  | [] => ⟨rfl, hs⟩
  | .interrupted :: rest => hs.writeRetry rest
  | .wouldBlock :: _ => ⟨rfl, hs⟩
  | .failed :: _ => ⟨rfl, hs⟩
  | .accepted k :: _ => by
    obtain ⟨-, -, hshows, -⟩ := sim_some.mp hs
    simp only [ReactorBuf.writeRetry, BufHeap.writeRetry, length_eq_of_shows hshows]
    refine ⟨trivial, ?_⟩
    split_ifs
    · exact (hs.popped _).adjust
    · exact hs

/-- **`write2fd`.** -/
theorem write2fd_refines (hs : Sim h₀ others buf h b p) (answers : List WriteAnswer) :
    Refines (fun o o' => o.hasWrite = o'.1 ∧ Sim h₀ others buf o'.2 (some o.buf) p) SameEnd
      (ReactorBuf.write2fd b answers) (write2fd buf answers h) := by
  rcases hs.cases with ⟨rfl, rfl⟩ | ⟨a, v, rfl, rfl⟩
  · exact refines_error rfl
  · obtain ⟨-, -, hshows, -⟩ := sim_some.mp hs
    simp only [ReactorBuf.write2fd, write2fd, head_eq_of_shows hshows]
    split_ifs
    · exact refines_ok (hs.writeRetry answers)
    · exact refines_error rfl

end BufHeap

/-! ## Many objects -/

/-- The sizes are of type `int`. -/
def BufCall.Fits : BufCall → Prop
  | .readData k => ∀ n, k.fionread = some n → n < 2 ^ 31
  | .writeData data => data.length < 2 ^ 31
  | _ => True

/-- The pool and the buffer of each object, as values. -/
structure BufValues (ι : Type) where
  pool : BufPool
  buf : ι → Option IoBuf

namespace BufValues

variable {ι : Type}

/-- The pool as it has been made; no object has a buffer. -/
def new : BufValues ι := ⟨.ofCounts BufHeap.newCount, fun _ => none⟩

/-- A call on an object with the buffer `b`. -/
def exec (b : Option IoBuf) (p : BufPool) :
    BufCall → Except Halt (Option ℤ × Option IoBuf × BufPool)
  | .readData k => do
    let (ret, b, p) ← ReactorBuf.readData b k p
    .ok (some ret, b, p)
  | .writeData data => do
    let (ret, b, p) ← ReactorBuf.writeData b data p
    .ok (some ret, b, p)
  | .write2fd answers => do
    let w ← ReactorBuf.write2fd b answers
    .ok (some w.hasWrite, some w.buf, p)
  | .pop len => do
    let (b, p) ← ReactorBuf.pop b len p
    .ok (none, b, p)
  | .clear => .ok (none, none, ReactorBuf.clear b p)
  | .adjust => .ok (none, ReactorBuf.adjust b, p)
  | .destroy => .ok (none, none, ReactorBuf.clear b p)

/-- A call on the object `i`. -/
def step [DecidableEq ι] (v : BufValues ι) : ι × BufCall → Except Halt (Option ℤ × BufValues ι)
  | (i, call) => do
    let (ret, b, p) ← exec (v.buf i) v.pool call
    .ok (ret, ⟨p, Function.update v.buf i b⟩)

end BufValues

namespace Buffers

variable {ι : Type} {s : Buffers ι} {v : BufValues ι}

/-- The memory shows the values. -/
structure Shows (s : Buffers ι) (v : BufValues ι) : Prop where
  injective : ∀ i j a, s.buf i = some a → s.buf j = some a → i = j
  pooled : ∃ free, s.heap.Pooled free {a | ∃ i, s.buf i = some a} ∧
    s.heap.Represents free v.pool
  shows : ∀ i, Option.Rel s.heap.Shows (s.buf i) (v.buf i)

theorem shows_new : (new : Buffers ι).Shows BufValues.new := by
  obtain ⟨free, hp, hr⟩ := BufHeap.holds_new
  exact ⟨inv_new.injective, ⟨free, owned_new ▸ hp, hr⟩, fun _ => .none⟩

theorem exec_refines {h₀ h : BufHeap} {others : Set ℕ} {buf : Option ℕ} {b : Option IoBuf}
    {p : BufPool} (hs : BufHeap.Sim h₀ others buf h b p) {call : BufCall} (hcall : call.Fits) :
    Refines (fun o o' => o.1 = o'.1 ∧ BufHeap.Sim h₀ others o'.2.1 o'.2.2 o.2.1 o.2.2)
      BufHeap.SameEnd (BufValues.exec b p call) (exec buf h call) := by
  cases call with
  | readData k =>
    refine (BufHeap.readData_refines hs hcall).bind fun o o' ho => ?_
    exact refines_ok ⟨congrArg some ho.1, ho.2⟩
  | writeData data =>
    refine (BufHeap.writeData_refines hs hcall).bind fun o o' ho => ?_
    exact refines_ok ⟨congrArg some ho.1, ho.2⟩
  | write2fd answers =>
    refine (BufHeap.write2fd_refines hs answers).bind fun o o' ho => ?_
    exact refines_ok ⟨congrArg some ho.1, ho.2⟩
  | pop len =>
    refine (BufHeap.pop_refines hs len).bind fun o o' ho => ?_
    exact refines_ok ⟨rfl, ho⟩
  | clear =>
    obtain ⟨h', hclear, hs'⟩ := hs.clear
    rw [exec, hclear]
    exact refines_ok ⟨rfl, hs'⟩
  | adjust => exact refines_ok ⟨rfl, hs.adjust⟩
  | destroy =>
    obtain ⟨h', hclear, hs'⟩ := hs.clear
    rw [exec, hclear]
    exact refines_ok ⟨rfl, hs'⟩

variable [DecidableEq ι]

theorem step_refines (hs : s.Shows v) {e : ι × BufCall} (he : e.2.Fits) :
    Refines (fun o o' => o.1 = o'.1 ∧ o'.2.Shows o.2) BufHeap.SameEnd (BufValues.step v e)
      (step s e) := by
  obtain ⟨i, call⟩ := e
  have hinv : s.Inv := ⟨hs.injective, hs.pooled.imp fun _ hp => hp.1⟩
  have hsim : BufHeap.Sim s.heap (s.others i) (s.buf i) s.heap (v.buf i) v.pool := by
    refine ⟨fun a ha => hinv.notMem_others ha, ?_, hs.shows i, fun _ _ => rfl⟩
    rw [others_union, Function.update_eq_self]
    exact hs.pooled
  refine (exec_refines hsim he).bind ?_
  rintro ⟨ret, b, p⟩ ⟨ret', buf, h⟩ ⟨hret, hs'⟩
  obtain ⟨free, hp, hr⟩ := hs'.pooled
  have hinv' := hinv.update hs'.apart ⟨free, hp⟩
  rw [others_union] at hp
  refine refines_ok ⟨hret, hinv'.injective, ⟨free, hp, hr⟩, fun j => ?_⟩
  by_cases hji : j = i
  · subst hji
    simp only [Function.update_self]
    exact hs'.shows
  · simp only [Function.update_of_ne hji]
    have hj := hs.shows j
    generalize hbj : s.buf j = bj at hj ⊢
    generalize v.buf j = vj at hj ⊢
    cases hj with
    | none => exact .none
    | @some a w hw =>
      have hnode := hs'.frame a ⟨j, hji, hbj⟩
      exact .some (hw.congr hnode)

/-- **What happens on values in a run happens in memory.** -/
theorem run_refines {es : List (ι × BufCall)} (hes : ∀ e ∈ es, e.2.Fits) :
    Refines (fun o o' => o.1 = o'.1 ∧ o'.2.Shows o.2) BufHeap.SameEnd
      (run BufValues.step (BufValues.new : BufValues ι) es) (run step new es) := by
  have hstep : ∀ (v : BufValues ι) (s : Buffers ι) (e : ι × BufCall), s.Shows v → e.2.Fits →
      Refines (fun o o' => o.1 = o'.1 ∧ o'.2.Shows o.2) BufHeap.SameEnd (BufValues.step v e)
        (step s e) := fun _ _ _ hs he => step_refines hs he
  exact Machine.run_refines hstep hes shows_new

end Buffers

end Lars.Reactor
