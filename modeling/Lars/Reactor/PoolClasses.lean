import Lars.Reactor.FreeLists

/-!
# The classes of the pool

`alloc_buf` chooses a class by a ladder of comparisons that leaves out `m16K`, and when the free
list of the class is empty it exits, though it has made a new buffer: it tests the pointer that was
null.

In every state that the pool can come to, a request from 0 to `m8M` gets an empty buffer of the
smallest class that is large enough, or is refused for the limit on memory, if and only if it is not
one for which `m16K` would be the smallest and there is a buffer on the free list
(`serves_iff`).
-/

namespace Lars.Reactor

namespace BufHeap

/-! ## The states of the pool -/

/-- The states that the pool comes to by calls of `alloc_buf` and `revert`, with the buffers that it
has handed out. These may be filled and emptied in the meantime. -/
inductive Reachable : BufHeap → Set ℕ → Prop
  | new : Reachable new ∅
  | allocBuf {h h' : BufHeap} {out : Set ℕ} {a : ℕ} (hr : Reachable h out) (N : ℤ)
      (ha : h.allocBuf N = .ok (some a, h')) : Reachable h' (insert a out)
  | refused {h h' : BufHeap} {out : Set ℕ} (hr : Reachable h out) (N : ℤ)
      (ha : h.allocBuf N = .ok (none, h')) : Reachable h' out
  | revert {h h' : BufHeap} {out : Set ℕ} (hr : Reachable h out) {a : ℕ} (ha : a ∈ out)
      (hrev : h.revert a = .ok h') : Reachable h' (out \ {a})
  | modify {h : BufHeap} {out : Set ℕ} (hr : Reachable h out) {a : ℕ} (ha : a ∈ out)
      (f : BufNode → BufNode) (hf : (f (h.nodes a)).capacity = (h.nodes a).capacity) :
      Reachable (h.modify a f) out

/-- The states that the pool comes to by any calls of `alloc_buf` and `revert`, where a buffer may
be given back that is not in use. -/
inductive Called : BufHeap → Prop
  | new : Called new
  | allocBuf {h h' : BufHeap} {r : Option ℕ} (hc : Called h) (N : ℤ)
      (ha : h.allocBuf N = .ok (r, h')) : Called h'
  | revert {h h' : BufHeap} (hc : Called h) (a : ℕ) (hrev : h.revert a = .ok h') : Called h'
  | modify {h : BufHeap} (hc : Called h) (a : ℕ) (f : BufNode → BufNode)
      (hf : (f (h.nodes a)).capacity = (h.nodes a).capacity) : Called (h.modify a f)

variable {h : BufHeap} {out : Set ℕ}

theorem Reachable.called (hr : Reachable h out) : Called h := by
  induction hr with
  | new => exact .new
  | allocBuf _ N ha ih => exact ih.allocBuf N ha
  | refused _ N ha ih => exact ih.allocBuf N ha
  | revert _ _ hrev ih => exact ih.revert _ hrev
  | modify _ _ f hf ih => exact ih.modify _ f hf

/-- In a state that the pool comes to, its lists are linked as they should be. -/
theorem Reachable.pooled (hr : Reachable h out) : ∃ free, Pooled h free out := by
  induction hr with
  | new =>
    obtain ⟨free, hp, -⟩ := holds_new
    exact ⟨free, hp⟩
  | allocBuf _ N ha ih =>
    obtain ⟨free, hp⟩ := ih
    rcases hp.allocBuf N with ⟨-, ha'⟩ | ⟨m, -, ⟨-, ha'⟩ | ⟨a, l, h', -, ha', hp', -⟩⟩ <;>
      cases ha'.symm.trans ha
    exact ⟨_, hp'⟩
  | refused _ N ha ih =>
    obtain ⟨free, hp⟩ := ih
    rcases hp.allocBuf N with ⟨-, ha'⟩ | ⟨m, -, ⟨-, ha'⟩ | ⟨a, l, h', -, ha', -⟩⟩ <;>
      cases ha'.symm.trans ha
    exact ⟨free, hp⟩
  | revert _ ha hrev ih =>
    obtain ⟨free, hp⟩ := ih
    obtain ⟨h', hrev', hp', -⟩ := hp.revert ha
    cases hrev'.symm.trans hrev
    exact ⟨_, hp'⟩
  | modify _ ha f hf ih =>
    obtain ⟨free, hp⟩ := ih
    exact ⟨free, hp.modify ha hf⟩

/-! ## The memory counted -/

theorem totalMem_extend (cap count prev : ℕ) (h : BufHeap) :
    (extend cap count prev h).totalMem = h.totalMem := by
  induction count generalizing prev h with
  | zero => rfl
  | succ count ih => exact ih _ _

theorem totalMem_initList (c : MemCap) (count mem : ℕ) (h : BufHeap) :
    (initList c count mem h).totalMem = h.totalMem + mem :=
  congrArg (· + mem) (totalMem_extend ..)

/-- The memory counted by the constructor. -/
theorem totalMem_new : new.totalMem = 334240 := by
  simp only [new, totalMem_initList]
  rfl

/-- No buffer has been made in the meantime, and none has changed its capacity. -/
structure SameMemory (h h' : BufHeap) : Prop where
  totalMem_eq : h'.totalMem = h.totalMem
  created_eq : h'.created = h.created
  capacity_eq : ∀ a, (h'.nodes a).capacity = (h.nodes a).capacity

theorem SameMemory.refl (h : BufHeap) : SameMemory h h := ⟨rfl, rfl, fun _ => rfl⟩

theorem SameMemory.trans {h h' h'' : BufHeap} (hs : SameMemory h h') (hs' : SameMemory h' h'') :
    SameMemory h h'' :=
  ⟨hs'.totalMem_eq.trans hs.totalMem_eq, hs'.created_eq.trans hs.created_eq,
    fun a => (hs'.capacity_eq a).trans (hs.capacity_eq a)⟩

theorem sameMemory_modify {a : ℕ} {f : BufNode → BufNode}
    (hf : (f (h.nodes a)).capacity = (h.nodes a).capacity) : SameMemory h (h.modify a f) := by
  refine ⟨rfl, rfl, fun b => ?_⟩
  by_cases hb : b = a
  · rw [hb, nodes_modify_self, hf]
  · rw [nodes_modify_of_ne hb]

theorem sameMemory_setPool (index : ℕ) (first : Option ℕ) :
    SameMemory h (h.setPool index first) := ⟨rfl, rfl, fun _ => rfl⟩

theorem sameMemory_setNext (a : ℕ) (p : Option ℕ) : SameMemory h (h.setNext a p) :=
  sameMemory_modify rfl

/-- The branch that makes a buffer exits. -/
theorem sameMemory_allocBuf {h h' : BufHeap} {N : ℤ} {r : Option ℕ}
    (ha : h.allocBuf N = .ok (r, h')) : SameMemory h h' := by
  unfold BufHeap.allocBuf at ha
  cases hi : BufPool.index N with
  | none =>
    rw [hi] at ha
    cases ha
    exact .refl h
  | some m =>
    rw [hi] at ha
    cases hk : (h.pool m.size).join with
    | none =>
      simp only [hk] at ha
      split_ifs at ha
      exact absurd rfl ‹_›
    | some a =>
      simp only [hk] at ha
      cases ha
      exact (sameMemory_setPool _ _).trans (sameMemory_setNext a none)

theorem sameMemory_revert {h h' : BufHeap} {a : ℕ} (hrev : h.revert a = .ok h') :
    SameMemory h h' := by
  unfold BufHeap.revert at hrev
  dsimp only at hrev
  split at hrev
  · cases hrev
  · cases hrev
    have hclear : SameMemory h (h.modify a .clear) := sameMemory_modify rfl
    exact (hclear.trans (sameMemory_setNext a _)).trans (sameMemory_setPool _ _)

/-- No buffer is ever added to those that the constructor has made. -/
theorem Called.sameMemory (hc : Called h) : SameMemory BufHeap.new h := by
  induction hc with
  | new => exact .refl _
  | allocBuf _ N ha ih => exact ih.trans (sameMemory_allocBuf ha)
  | revert _ a hrev ih => exact ih.trans (sameMemory_revert hrev)
  | modify _ a f hf ih => exact ih.trans (sameMemory_modify hf)

theorem Called.totalMem_eq (hc : Called h) : h.totalMem = 334240 :=
  hc.sameMemory.totalMem_eq.trans totalMem_new

/-! ## The class of a request -/

/-- The smallest class that is large enough. -/
def BestFit (N : ℤ) (c : MemCap) : Prop :=
  N ≤ c.size ∧ ∀ c' : MemCap, N ≤ c'.size → c.size ≤ c'.size

/-- `alloc_buf(N)` returns an empty buffer of the smallest class that is large enough, which is on
no list, or gives up because there is none and one more would be too much memory. -/
def Serves (h : BufHeap) (N : ℤ) : Prop :=
  ∃ c, BestFit N c ∧
    ((∃ a h', h.allocBuf N = .ok (some a, h') ∧ (h'.nodes a).IsFree c.size ∧
      (h'.nodes a).next = none) ∨
    (h.allocBuf N = .error (.halt .exit) ∧ (h.pool c.size).join = none ∧
      extraMemLimit < h.totalMem + c.size / 1024))

/-- The request is none for which `m16K` is the smallest class that is large enough. -/
def Not16K (N : ℤ) : Prop := N ≤ MemCap.m4K.size ∨ (MemCap.m16K.size : ℤ) < N

/-- The ladder finds the smallest class, but for `m16K`. -/
theorem bestFit_index_iff {N : ℤ} {c : MemCap} (hi : BufPool.index N = some c) :
    BestFit N c ↔ Not16K N := by
  have hle := BufPool.le_size_of_index hi
  unfold Not16K
  unfold BufPool.index at hi
  split_ifs at hi <;> cases hi <;> constructor
  all_goals first
    | rintro ⟨-, hmin⟩
      have h16 := hmin .m16K
      simp only [MemCap.size] at *
      omega
    | intro h
      refine ⟨hle, fun c' hc' => ?_⟩
      cases c' <;> simp only [MemCap.size] at * <;> omega

/-- What a request in range gets in a state that the pool comes to. -/
theorem Reachable.allocBuf_cases (hr : Reachable h out) {N : ℤ} {c : MemCap}
    (hi : BufPool.index N = some c) :
    ((h.pool c.size).join = none ∧ h.allocBuf N = .error (.halt .exit)) ∨
    ((h.pool c.size).join ≠ none ∧ ∃ a h', h.allocBuf N = .ok (some a, h') ∧
      (h'.nodes a).IsFree c.size ∧ (h'.nodes a).next = none) := by
  obtain ⟨free, hp⟩ := hr.pooled
  rcases hp.allocBuf N with ⟨hn, -⟩ | ⟨m, hm, hcases⟩
  · cases hn.symm.trans hi
  obtain rfl : m = c := Option.some.inj (hm.symm.trans hi)
  have hchain := hp.chain m.size
  rcases hcases with ⟨hnil, ha⟩ | ⟨a, l, h', hl, ha, -, -, hnode⟩
  · exact Or.inl ⟨Chain.eq_none (hnil ▸ hchain), ha⟩
  · obtain ⟨hfirst, -⟩ := Chain.of_cons (hl ▸ hchain)
    obtain ⟨hcap, hlen, hhead⟩ := hp.isFree m.size a (hl ▸ List.mem_cons_self)
    refine Or.inr ⟨by rw [hfirst]; exact Option.some_ne_none a, a, h', ha, ?_, ?_⟩
    · rw [hnode]
      exact ⟨hcap, hlen, hhead⟩
    · rw [hnode]

/-- When a request of the class `c` is served as it should be. -/
theorem Reachable.serves_iff_index (hr : Reachable h out) {N : ℤ} {c : MemCap}
    (hi : BufPool.index N = some c) :
    Serves h N ↔ Not16K N ∧ (h.pool c.size).join ≠ none := by
  constructor
  · rintro ⟨c', hfit, ⟨a, h', ha, hfree, -⟩ | ⟨-, -, hlimit⟩⟩
    · rcases hr.allocBuf_cases hi with ⟨-, ha'⟩ | ⟨hne, a', h'', ha', hfree', -⟩
      · cases ha'.symm.trans ha
      · cases ha'.symm.trans ha
        obtain rfl : c' = c :=
          MemCap.size_injective (hfree.capacity_eq.symm.trans hfree'.capacity_eq)
        exact ⟨(bestFit_index_iff hi).mp hfit, hne⟩
    · -- The memory counted is always far from the limit.
      have hsize := c'.size_le
      rw [hr.called.totalMem_eq, extraMemLimit] at hlimit
      omega
  · rintro ⟨h16, hne⟩
    rcases hr.allocBuf_cases hi with ⟨hnone, -⟩ | ⟨-, a, h', ha, hfree, hnext⟩
    · exact absurd hnone hne
    · exact ⟨c, (bestFit_index_iff hi).mpr h16, Or.inl ⟨a, h', ha, hfree, hnext⟩⟩

theorem index_isSome {N : ℤ} (hlo : 0 ≤ N) (hhi : N ≤ MemCap.m8M.size) :
    ∃ c, BufPool.index N = some c :=
  Option.ne_none_iff_exists'.mp fun hn =>
    (BufPool.index_eq_none_iff.mp hn).elim (fun h => absurd hlo (by omega)) hhi.not_gt

/-- **The classes**: in every state that the pool comes to, a request from 0 to `m8M` is served as
it should be if and only if it is not one of `m16K`, and there is a buffer on the free list that it
is served from. -/
theorem serves_iff (hr : Reachable h out) {N : ℤ} (hlo : 0 ≤ N) (hhi : N ≤ MemCap.m8M.size) :
    Serves h N ↔
      Not16K N ∧ ∃ c, BufPool.index N = some c ∧ (h.pool c.size).join ≠ none := by
  obtain ⟨c, hi⟩ := index_isSome hlo hhi
  rw [hr.serves_iff_index hi]
  refine and_congr_right fun _ => ⟨fun hne => ⟨c, hi, hne⟩, ?_⟩
  rintro ⟨c', hi', hne⟩
  obtain rfl : c = c' := Option.some.inj (hi.symm.trans hi')
  exact hne

/-- A buffer of 64K that the new pool has handed out, is filled, and comes back. -/
theorem reachable_reverted : ∃ h₁ a h₂ out, new.allocBuf 5000 = .ok (some a, h₁) ∧
    (h₁.modify a fun b => b.append [1, 2, 3]).revert a = .ok h₂ ∧ Reachable h₂ out := by
  obtain ⟨free, hp, hrepresents⟩ := holds_new
  rcases hp.allocBuf 5000 with ⟨hnone, -⟩ | ⟨m, -, ⟨hnil, -⟩ | ⟨a, l, h₁, -, ha, -⟩⟩
  · exact absurd hnone (by decide)
  · -- there are free buffers of every size
    have hlist := hrepresents m
    rw [hnil] at hlist
    have hcount : 0 = newCount m := by simpa [BufPool.ofCounts] using congrArg List.length hlist
    exact absurd hcount (by cases m <;> decide)
  · have hr := (Reachable.new.allocBuf 5000 ha).modify (Set.mem_insert a ∅)
      (fun b => b.append [1, 2, 3]) rfl
    obtain ⟨free', hp'⟩ := hr.pooled
    obtain ⟨h₂, hrev, -⟩ := hp'.revert (Set.mem_insert a ∅)
    exact ⟨h₁, a, h₂, _, ha, hrev, hr.revert (Set.mem_insert a ∅) hrev⟩

theorem serves_iff_reverted : ∃ h₁ a h₂, new.allocBuf 5000 = .ok (some a, h₁) ∧
    (h₁.modify a fun b => b.append [1, 2, 3]).revert a = .ok h₂ ∧
    (Serves h₂ 5000 ↔
      Not16K 5000 ∧ ∃ c, BufPool.index 5000 = some c ∧ (h₂.pool c.size).join ≠ none) := by
  obtain ⟨h₁, a, h₂, out, ha, hrev, hr⟩ := reachable_reverted
  exact ⟨h₁, a, h₂, ha, hrev, serves_iff hr (by decide) (by decide)⟩

/-- The free list of a class can be emptied. -/
theorem Reachable.exists_exhausted {N : ℤ} {c : MemCap} (hi : BufPool.index N = some c)
    (hr : Reachable h out) : ∃ h' out', Reachable h' out' ∧ (h'.pool c.size).join = none := by
  obtain ⟨free, hp⟩ := hr.pooled
  induction hn : (free c.size).length generalizing h out free with
  | zero =>
    have hchain := hp.chain c.size
    exact ⟨h, out, hr, Chain.eq_none (List.length_eq_zero_iff.mp hn ▸ hchain)⟩
  | succ n ih =>
    rcases hp.allocBuf N with ⟨hnone, -⟩ | ⟨m, hm, hcases⟩
    · cases hnone.symm.trans hi
    obtain rfl : m = c := Option.some.inj (hm.symm.trans hi)
    rcases hcases with ⟨hnil, -⟩ | ⟨a, l, h', hl, ha, hp', -⟩
    · rw [hnil] at hn
      cases hn
    · refine ih (hr.allocBuf N ha) _ hp' ?_
      rw [Function.update_self]
      rw [hl] at hn
      exact Nat.succ.inj hn

/-- A request of 5000 bytes gets a buffer of 64K from the new pool, and when all buffers of 4K are
in use the next request of one exits. -/
theorem not_serves :
    (¬ ∀ h out, Reachable h out → ∀ N : ℤ, 0 ≤ N → N ≤ MemCap.m8M.size → Serves h N) ∧
    ∃ h out, Reachable h out ∧ ¬ Serves h 4096 := by
  constructor
  · intro hall
    have h := hall new ∅ .new 5000 (by decide) (by decide)
    have h16 := ((Reachable.new.serves_iff_index (c := .m64K) (by decide)).mp h).1
    exact absurd h16 (by unfold Not16K; decide)
  · obtain ⟨h, out, hr, hnone⟩ := Reachable.new.exists_exhausted (N := 4096) (c := .m4K) (by decide)
    exact ⟨h, out, hr, fun hs => ((hr.serves_iff_index (c := .m4K) (by decide)).mp hs).2 hnone⟩

end BufHeap

end Lars.Reactor
