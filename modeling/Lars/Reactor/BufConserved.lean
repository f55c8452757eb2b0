import Lars.Foundations.LastWrite
import Lars.Reactor.FreeLists

/-!
# The buffers are conserved

Any number of `input_buf` and `output_buf` objects take buffers from one pool. `Buffers` is their
machine: each event is one call on one object. The two classes are not told apart, so the runs
include those in which each object gets the calls of its class only.

`Held others buf h` says that an object holds the buffer `buf` while the others hold `others`; each
operation keeps it, and none can end the process by the `assert` of `revert`. From this it follows
that in every state that a run gets to each buffer made is in exactly one place (`Conserved`). A run
stops where a call goes past the end of a block.
-/

namespace Lars.Reactor

open Machine

namespace BufHeap

/-! ## The operations on one object -/

/-- The buffer `buf` of an object and those of the others are all that the pool has handed out, and
no other object has `buf`. -/
def Held (others : Set ℕ) (buf : Option ℕ) (h : BufHeap) : Prop :=
  (∀ a, buf = some a → a ∉ others) ∧ ∃ free, h.Pooled free (others ∪ {a | buf = some a})

variable {others : Set ℕ} {buf : Option ℕ} {h : BufHeap} {a : ℕ}

theorem union_none (others : Set ℕ) : others ∪ {a | none = some a} = others := by
  ext b
  simp

theorem union_some (others : Set ℕ) (a : ℕ) :
    others ∪ {b | some a = some b} = insert a others := by
  ext b
  simp [eq_comm]

theorem held_none : Held others none h ↔ ∃ free, h.Pooled free others := by
  rw [Held, union_none]
  exact and_iff_right fun _ h => nomatch h

theorem held_some : Held others (some a) h ↔
    a ∉ others ∧ ∃ free, h.Pooled free (insert a others) := by
  rw [Held, union_some]
  exact and_congr_left fun _ => ⟨fun h => h a rfl, fun h b hb => Option.some.inj hb ▸ h⟩

theorem Held.modify (hh : Held others (some a) h) {f : BufNode → BufNode}
    (hf : (f (h.nodes a)).capacity = (h.nodes a).capacity) :
    Held others (some a) (h.modify a f) := by
  obtain ⟨ha, free, hp⟩ := held_some.mp hh
  exact held_some.mpr ⟨ha, free, hp.modify (Set.mem_insert a others) hf⟩

theorem allocBuf_ends (hh : Held others none h) (N : ℤ) :
    Ends (fun o => Held others o.1 o.2) (· ≠ .notInPool) (h.allocBuf N) := by
  obtain ⟨free, hp⟩ := held_none.mp hh
  rcases hp.allocBuf N with ⟨-, ha⟩ | ⟨m, -, ⟨-, ha⟩ | ⟨a, l, h', hl, ha, hp', -, -⟩⟩
  · rw [ha]
    exact ends_ok hh
  · rw [ha]
    exact ends_error HeapHalt.noConfusion
  · rw [ha]
    exact ends_ok (held_some.mpr ⟨hp.notMem_out hl, _, hp'⟩)

theorem revert_ends (hh : Held others (some a) h) :
    Ends (fun h => Held others none h) (· ≠ .notInPool) (h.revert a) := by
  obtain ⟨ha, free, hp⟩ := held_some.mp hh
  obtain ⟨h', hr, hp', -, -⟩ := hp.revert (Set.mem_insert a others)
  rw [Set.insert_sdiff_self_of_notMem ha] at hp'
  rw [hr]
  exact ends_ok (held_none.mpr ⟨_, hp'⟩)

theorem clear_ends (hh : Held others buf h) :
    Ends (fun o => Held others o.1 o.2) (· ≠ .notInPool) (clear buf h) := by
  cases buf with
  | none => exact ends_ok hh
  | some a => exact (revert_ends hh).bind fun h' hh' => ends_ok hh'

theorem pop_ends (hh : Held others buf h) (len : ℕ) :
    Ends (fun o => Held others o.1 o.2) (· ≠ .notInPool) (pop buf len h) := by
  cases buf with
  | none => exact ends_error HeapHalt.noConfusion
  | some a =>
    have hpop := hh.modify (f := fun b => b.pop len) (BufNode.capacity_pop ..)
    simp only [pop]
    split_ifs with hlen hpos
    · exact ends_ok hpop
    · exact (revert_ends hpop).bind fun h' hh' => ends_ok hh'
    · exact ends_error HeapHalt.noConfusion

theorem ensure_ends (hh : Held others buf h) (n : ℕ) :
    Ends (fun o => Held others o.1 o.2) (· ≠ .notInPool) (ensure buf n h) := by
  cases buf with
  | none => exact allocBuf_ends hh n
  | some a => exact ends_ok hh

/-- Without a new buffer the object keeps the one it has. -/
theorem grow_ends (hh : Held others (some a) h) (n : ℕ) :
    Ends (fun o => Held others (o.1.or (some a)) o.2) (· ≠ .notInPool) (grow a n h) := by
  obtain ⟨ha, free, hp⟩ := held_some.mp hh
  unfold grow
  split_ifs with hlt
  · -- While both buffers are out, `a` counts among those of the others.
    have hout : Held (insert a others) none h := held_none.mpr ⟨free, hp⟩
    refine (allocBuf_ends hout _).bind ?_
    rintro ⟨newBuf, h₁⟩ hh₁
    cases newBuf with
    | none => exact ends_ok (held_some.mpr ⟨ha, held_none.mp hh₁⟩)
    | some b =>
      dsimp only
      split_ifs
      · exact ends_error HeapHalt.noConfusion
      have hcopy := hh₁.modify (f := fun b => b.copy (h₁.nodes a)) (BufNode.capacity_copy ..)
      obtain ⟨hb, free₂, hp₂⟩ := held_some.mp hcopy
      have hab : a ≠ b := fun hab => hb (hab ▸ Set.mem_insert a others)
      have hswap : Held (insert b others) (some a)
          (h₁.modify b fun b => b.copy (h₁.nodes a)) := by
        refine held_some.mpr ⟨?_, free₂, ?_⟩
        · rintro (hab' | hmem)
          · exact hab hab'
          · exact ha hmem
        · rwa [Set.insert_comm]
      refine (revert_ends hswap).bind fun h₂ hh₂ => ?_
      exact ends_ok (held_some.mpr ⟨fun hmem => hb (Set.mem_insert_of_mem a hmem),
        held_none.mp hh₂⟩)
  · exact ends_ok hh

theorem readData_ends (hh : Held others buf h) (k : KernelRead) :
    Ends (fun o => Held others o.2.1 o.2.2) (· ≠ .notInPool) (readData buf k h) := by
  unfold readData
  cases k.fionread with
  | none => exact ends_ok hh
  | some needRead =>
    dsimp only
    generalize ReactorBuf.readRetry _ k.reads = got
    refine (ensure_ends hh needRead).bind ?_
    rintro ⟨buf₁, h₁⟩ hh₁
    cases buf₁ with
    | none => exact ends_ok hh₁
    | some a =>
      dsimp only
      split_ifs with hhead
      · exact ends_error HeapHalt.noConfusion
      refine (grow_ends hh₁ needRead).bind ?_
      rintro ⟨buf₂, h₂⟩ hh₂
      cases buf₂ with
      | none => exact ends_ok hh₂
      | some b =>
        have happend : ∀ l, Held others (some b) (h₂.modify b fun b => b.append l) := fun l =>
          Held.modify hh₂ (BufNode.capacity_append _ l)
        cases got with
        | none => exact ends_ok hh₂
        | some l =>
          dsimp only
          split_ifs with hover hpos hne
          · exact ends_error HeapHalt.noConfusion
          · exact ends_error HeapHalt.noConfusion
          · exact ends_ok (happend l)
          · exact ends_ok hh₂

theorem writeData_ends (hh : Held others buf h) (data : List UInt8) :
    Ends (fun o => Held others o.2.1 o.2.2) (· ≠ .notInPool) (writeData buf data h) := by
  refine (ensure_ends hh data.length).bind ?_
  rintro ⟨buf₁, h₁⟩ hh₁
  cases buf₁ with
  | none => exact ends_ok hh₁
  | some a =>
    refine (grow_ends hh₁ data.length).bind ?_
    rintro ⟨buf₂, h₂⟩ hh₂
    cases buf₂ with
    | none => exact ends_ok hh₂
    | some b =>
      have happend : Held others (some b) (h₂.modify b fun b => b.append data) :=
        Held.modify hh₂ (BufNode.capacity_append _ data)
      exact ends_ok happend

theorem held_adjust (hh : Held others buf h) : Held others buf (adjust buf h) := by
  cases buf with
  | none => exact hh
  | some a => exact hh.modify (BufNode.capacity_adjust _)

theorem held_writeRetry (hh : Held others (some a) h) : ∀ answers : List WriteAnswer,
    Held others (some a) (writeRetry a h answers).2
  | [] => hh
  | .interrupted :: rest => held_writeRetry hh rest
  | .wouldBlock :: _ => hh
  | .failed :: _ => hh
  | .accepted k :: _ => by
    simp only [writeRetry]
    split_ifs
    · exact (hh.modify (BufNode.capacity_pop ..)).modify (BufNode.capacity_adjust _)
    · exact hh

theorem write2fd_ends (hh : Held others buf h) (answers : List WriteAnswer) :
    Ends (fun o => Held others buf o.2) (· ≠ .notInPool) (write2fd buf answers h) := by
  cases buf with
  | none => exact ends_error HeapHalt.noConfusion
  | some a =>
    simp only [write2fd]
    split_ifs
    · exact ends_ok (held_writeRetry hh answers)
    · exact ends_error HeapHalt.noConfusion

end BufHeap

/-! ## Many objects -/

/-- A call on an object. `destroy` is the destructor; an object may be made anew after it. -/
inductive BufCall
  | readData (k : KernelRead)
  | writeData (data : List UInt8)
  | write2fd (answers : List WriteAnswer)
  | pop (len : ℕ)
  | clear
  | adjust
  | destroy

/-- The memory, and the `m_buf` of each object. -/
structure Buffers (ι : Type) where
  heap : BufHeap
  buf : ι → Option ℕ

namespace Buffers

variable {ι : Type}

/-- The pool has been made; no object has a buffer. -/
def new : Buffers ι := ⟨.new, fun _ => none⟩

/-- A call on an object with the buffer `buf`: the value returned, if any, `m_buf`, and the
memory. -/
def exec (buf : Option ℕ) (h : BufHeap) :
    BufCall → Except HeapHalt (Option ℤ × Option ℕ × BufHeap)
  | .readData k => do
    let (ret, buf, h) ← BufHeap.readData buf k h
    .ok (some ret, buf, h)
  | .writeData data => do
    let (ret, buf, h) ← BufHeap.writeData buf data h
    .ok (some ret, buf, h)
  | .write2fd answers => do
    let (ret, h) ← BufHeap.write2fd buf answers h
    .ok (some ret, buf, h)
  | .pop len => do
    let (buf, h) ← BufHeap.pop buf len h
    .ok (none, buf, h)
  | .clear => do
    let (buf, h) ← BufHeap.clear buf h
    .ok (none, buf, h)
  | .adjust => .ok (none, buf, BufHeap.adjust buf h)
  | .destroy => do
    let (buf, h) ← BufHeap.clear buf h
    .ok (none, buf, h)

/-- A call on the object `i`. -/
def step [DecidableEq ι] (s : Buffers ι) : ι × BufCall → Except HeapHalt (Option ℤ × Buffers ι)
  | (i, call) => do
    let (ret, buf, h) ← exec (s.buf i) s.heap call
    .ok (ret, ⟨h, Function.update s.buf i buf⟩)

/-- Where a buffer can be. -/
inductive Place (ι : Type)
  /-- On the free list of the class `c`, at position `k`. -/
  | free (c k : ℕ)
  /-- With an object. -/
  | owned (i : ι)

/-- The buffer at the address `a` is in a place; of a free list, it is reached from `m_pool[c]` by
following `m_next` for `k` steps. -/
def At (s : Buffers ι) (a : ℕ) : Place ι → Prop
  | .free c k => follow s.heap.next k (s.heap.pool c).join = some a
  | .owned i => s.buf i = some a

/-- The buffers are conserved: each buffer made is in exactly one place and no place has another,
those on the free list of a class are empty and of its capacity, and each free list ends. -/
structure Conserved (s : Buffers ι) : Prop where
  place : ∀ a < s.heap.created, ∃! p, s.At a p
  created : ∀ a p, s.At a p → a < s.heap.created
  isFree : ∀ a c k, s.At a (.free c k) → (s.heap.nodes a).IsFree c
  acyclic : ∀ c, ∃ l : List ℕ, l.Nodup ∧ Chain s.heap.next (s.heap.pool c).join l

/-! ## The invariant -/

/-- No two objects have one buffer, and theirs are those that the pool has handed out. -/
structure Inv (s : Buffers ι) : Prop where
  injective : ∀ i j a, s.buf i = some a → s.buf j = some a → i = j
  pooled : ∃ free, s.heap.Pooled free {a | ∃ i, s.buf i = some a}

variable {s : Buffers ι}

/-- **The invariant implies conservation.** -/
theorem Inv.conserved (hs : s.Inv) : s.Conserved := by
  obtain ⟨free, hp⟩ := hs.pooled
  have hat : ∀ a c k, s.At a (.free c k) ↔ (free c)[k]? = some a := by
    intro a c k
    rw [At, (hp.chain c).follow_eq]
  have hmem : ∀ a c k, s.At a (.free c k) → a ∈ free c := fun a c k h =>
    List.mem_of_getElem? ((hat a c k).mp h)
  constructor
  case place =>
    intro a ha
    rcases (hp.created a).mp ha with ⟨i, hi⟩ | ⟨c, hc⟩
    · refine ⟨.owned i, hi, ?_⟩
      rintro (⟨c, k⟩ | ⟨j⟩) h
      · exact absurd (hmem a c k h) (hp.apart a ⟨i, hi⟩ c)
      · rw [hs.injective j i a h hi]
    · obtain ⟨k, hk⟩ := List.mem_iff_getElem?.mp hc
      refine ⟨.free c k, (hat a c k).mpr hk, ?_⟩
      rintro (⟨c', k'⟩ | ⟨j⟩) h
      · obtain rfl : c' = c :=
          (hp.eq_capacity (hmem a c' k' h)).trans (hp.eq_capacity hc).symm
        have hk' := (hat a c' k').mp h
        obtain ⟨hlt, -⟩ := List.getElem?_eq_some_iff.mp hk
        rw [(List.getElem?_inj hlt (hp.nodup c')).mp (hk.trans hk'.symm)]
      · exact absurd hc (hp.apart a ⟨j, h⟩ c)
  case created =>
    rintro a (⟨c, k⟩ | ⟨i⟩) h
    · exact (hp.created a).mpr (Or.inr ⟨c, hmem a c k h⟩)
    · exact (hp.created a).mpr (Or.inl ⟨i, h⟩)
  case isFree => exact fun a c k h => hp.isFree c a (hmem a c k h)
  case acyclic => exact fun c => ⟨free c, hp.nodup c, hp.chain c⟩

theorem owned_new : {a : ℕ | ∃ i, (new : Buffers ι).buf i = some a} = ∅ := by
  ext a
  simp [new]

theorem inv_new : (new : Buffers ι).Inv := by
  refine ⟨fun _ _ _ h => (nomatch h), ?_⟩
  obtain ⟨free, hp, -⟩ := BufHeap.holds_new
  exact ⟨free, owned_new ▸ hp⟩

/-- A call keeps what an object holds apart from what the others do. -/
theorem exec_ends {others : Set ℕ} {buf : Option ℕ} {h : BufHeap}
    (hh : BufHeap.Held others buf h) (call : BufCall) :
    Ends (fun o => BufHeap.Held others o.2.1 o.2.2) (· ≠ .notInPool) (exec buf h call) := by
  cases call with
  | readData k => exact (BufHeap.readData_ends hh k).bind fun o ho => ends_ok ho
  | writeData data => exact (BufHeap.writeData_ends hh data).bind fun o ho => ends_ok ho
  | write2fd answers => exact (BufHeap.write2fd_ends hh answers).bind fun o ho => ends_ok ho
  | pop len => exact (BufHeap.pop_ends hh len).bind fun o ho => ends_ok ho
  | clear => exact (BufHeap.clear_ends hh).bind fun o ho => ends_ok ho
  | adjust => exact ends_ok (BufHeap.held_adjust hh)
  | destroy => exact (BufHeap.clear_ends hh).bind fun o ho => ends_ok ho

variable [DecidableEq ι]

/-- The buffers of the objects other than `i`. -/
def others (s : Buffers ι) (i : ι) : Set ℕ := {a | ∃ j, j ≠ i ∧ s.buf j = some a}

omit [DecidableEq ι] in
theorem Inv.notMem_others (hs : s.Inv) {i : ι} {a : ℕ} (ha : s.buf i = some a) :
    a ∉ s.others i := fun ⟨j, hj, hja⟩ => hj (hs.injective j i a hja ha)

/-- The buffers of all objects when `i` has the buffer `buf`. -/
theorem others_union (s : Buffers ι) (i : ι) (buf : Option ℕ) :
    s.others i ∪ {a | buf = some a} = {a | ∃ j, Function.update s.buf i buf j = some a} := by
  ext a
  constructor
  · rintro (⟨j, hj, ha⟩ | ha)
    · exact ⟨j, update_eq_some.mpr (Or.inr ⟨hj, ha⟩)⟩
    · exact ⟨i, update_eq_some.mpr (Or.inl ⟨rfl, ha⟩)⟩
  · rintro ⟨j, hj⟩
    rcases update_eq_some.mp hj with ⟨rfl, ha⟩ | ⟨hji, ha⟩
    · exact Or.inr ha
    · exact Or.inl ⟨j, hji, ha⟩

/-- The object `i` gets a buffer that no other has. -/
theorem Inv.update (hs : s.Inv) {i : ι} {buf : Option ℕ} {h : BufHeap}
    (hnew : ∀ a, buf = some a → a ∉ s.others i)
    (hp : ∃ free, h.Pooled free (s.others i ∪ {a | buf = some a})) :
    (⟨h, Function.update s.buf i buf⟩ : Buffers ι).Inv := by
  rw [others_union] at hp
  refine ⟨?_, hp⟩
  intro j k a hj hk
  exact update_injective (fun {i j v} => hs.injective i j v)
    (fun {j a} ha hji hj => hnew a ha ⟨j, hji, hj⟩) hj hk

/-- **Every call on every object keeps the invariant.** -/
theorem step_ends (hs : s.Inv) (e : ι × BufCall) :
    Ends (fun o => Inv o.2) (· ≠ .notInPool) (step s e) := by
  obtain ⟨i, call⟩ := e
  have hheld : BufHeap.Held (s.others i) (s.buf i) s.heap := by
    refine ⟨fun a ha => hs.notMem_others ha, ?_⟩
    rw [others_union, Function.update_eq_self]
    exact hs.pooled
  refine (exec_ends hheld call).bind ?_
  rintro ⟨ret, buf, h⟩ ⟨hnew, hp⟩
  exact ends_ok (hs.update hnew hp)

/-- **In every state that a run gets to each buffer made is in exactly one place**, and the `assert` of
`revert` never fails. -/
theorem conserved_of_run (es : List (ι × BufCall)) :
    run step (new : Buffers ι) es ≠ .error .notInPool ∧
    ∀ outs s, run step (new : Buffers ι) es = .ok (outs, s) → s.Conserved := by
  have h : Ends (fun o => Inv o.2) (· ≠ .notInPool) (run step (new : Buffers ι) es) :=
    run_ends (P := Inv) (fun s e hs => step_ends hs e) es inv_new
  exact ⟨fun ht => h.error .notInPool ht rfl, fun outs s hs => (h.ok (outs, s) hs).conserved⟩

end Buffers

end Lars.Reactor
