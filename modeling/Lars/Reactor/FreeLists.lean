import Mathlib.Data.Set.Insert
import Mathlib.Tactic.Tauto
import Lars.Reactor.BufHeap

/-!
# The free lists of the pool

`Pooled h free out` says that the pointers of the memory `h` make up the free lists `free`, and that
every buffer made is on one of them or is among the buffers `out` that the pool has handed out.
`allocBuf` takes a buffer out, `revert` puts one back, and a change to a buffer that is out does not
concern the pool. The constructor links all buffers it makes.
-/

namespace Lars.Reactor

namespace BufHeap

/-! ## The free lists -/

/-- The free lists are `free`, and the buffers `out` are with their users: every buffer made is in
exactly one of these places, and one that is out can be put back. -/
structure Pooled (h : BufHeap) (free : ℕ → List ℕ) (out : Set ℕ) : Prop where
  chain : ∀ c, Chain h.next (h.pool c).join (free c)
  isFree : ∀ c, ∀ a ∈ free c, (h.nodes a).IsFree c
  keyed : ∀ a ∈ out, h.pool (h.nodes a).capacity ≠ none
  apart : ∀ a ∈ out, ∀ c, a ∉ free c
  created : ∀ a, a < h.created ↔ a ∈ out ∨ ∃ c, a ∈ free c

variable {h h' : BufHeap} {free : ℕ → List ℕ} {out : Set ℕ} {a c : ℕ}

@[simp] theorem nodes_modify_self (h : BufHeap) (a : ℕ) (f : BufNode → BufNode) :
    (h.modify a f).nodes a = f (h.nodes a) := Function.update_self ..

theorem nodes_modify_of_ne {b : ℕ} (hb : b ≠ a) (h : BufHeap) (f : BufNode → BufNode) :
    (h.modify a f).nodes b = h.nodes b := Function.update_of_ne hb ..

theorem next_setNext (h : BufHeap) (a : ℕ) (p : Option ℕ) :
    (h.setNext a p).next = Function.update h.next a p := by
  funext b
  by_cases hb : b = a
  · subst hb
    simp [setNext, next]
  · rw [Function.update_of_ne hb]
    simp only [setNext, next, nodes_modify_of_ne hb]

@[simp] theorem nodes_setPool (h : BufHeap) (index : ℕ) (first : Option ℕ) :
    (h.setPool index first).nodes = h.nodes := rfl

@[simp] theorem next_setPool (h : BufHeap) (index : ℕ) (first : Option ℕ) :
    (h.setPool index first).next = h.next := rfl

theorem nodes_setNext_of_ne {b : ℕ} (hb : b ≠ a) (h : BufHeap) (p : Option ℕ) :
    (h.setNext a p).nodes b = h.nodes b := nodes_modify_of_ne hb ..

theorem capacity_setNext (h : BufHeap) (a : ℕ) (p : Option ℕ) (b : ℕ) :
    ((h.setNext a p).nodes b).capacity = (h.nodes b).capacity := by
  by_cases hb : b = a
  · subst hb
    simp [setNext]
  · rw [setNext, nodes_modify_of_ne hb]

/-- A buffer lies on the list of its capacity only. -/
theorem Pooled.eq_capacity (hp : Pooled h free out) (ha : a ∈ free c) :
    c = (h.nodes a).capacity := (hp.isFree c a ha).capacity_eq.symm

theorem Pooled.nodup (hp : Pooled h free out) (c : ℕ) : (free c).Nodup := (hp.chain c).nodup

/-- Changing a buffer that is out, but not its capacity, changes nothing in the pool. -/
theorem Pooled.modify (hp : Pooled h free out) (ha : a ∈ out) {f : BufNode → BufNode}
    (hf : (f (h.nodes a)).capacity = (h.nodes a).capacity) : Pooled (h.modify a f) free out := by
  have hfree : ∀ c, ∀ b ∈ free c, (h.modify a f).nodes b = h.nodes b := fun c b hb =>
    nodes_modify_of_ne (ne_of_mem_of_not_mem hb (hp.apart a ha c)) h f
  refine ⟨fun c => (hp.chain c).frame fun b hb => ?_, fun c b hb => ?_, fun b hb => ?_, hp.apart,
    hp.created⟩
  · rw [next, hfree c b hb]
    rfl
  · rw [hfree c b hb]
    exact hp.isFree c b hb
  · by_cases hba : b = a
    · subst hba
      rw [nodes_modify_self, hf]
      exact hp.keyed b hb
    · rw [nodes_modify_of_ne hba]
      exact hp.keyed b hb

/-- The lists when `a` is put in front of one. -/
theorem mem_update_cons {k b : ℕ} :
    b ∈ Function.update free k (a :: free k) c ↔ b ∈ free c ∨ b = a ∧ c = k := by
  by_cases hck : c = k
  · subst hck
    rw [Function.update_self, List.mem_cons]
    tauto
  · rw [Function.update_of_ne hck]
    tauto

/-- The buffer `a` is put in front of the free list of the class `k`. -/
theorem Pooled.push (hp : Pooled h free out) (ha : a ∈ out) {k : ℕ} {first : Option ℕ}
    (hfirst : h.pool k = some first) (hk : (h.nodes a).IsFree k) :
    Pooled ((h.setNext a first).setPool k (some a)) (Function.update free k (a :: free k))
      (out \ {a}) := by
  constructor
  case chain =>
    intro c
    rw [next_setPool, next_setNext]
    by_cases hck : c = k
    · subst hck
      have := (hp.chain c).push (hp.apart a ha c)
      rw [hfirst] at this
      simpa [setPool] using this
    · simp only [setPool, Function.update_of_ne hck]
      exact (hp.chain c).frame fun b hb =>
        Function.update_of_ne (ne_of_mem_of_not_mem hb (hp.apart a ha c)) _ _
  case isFree =>
    intro c b hb
    rw [nodes_setPool]
    rcases mem_update_cons.mp hb with hb | ⟨rfl, rfl⟩
    · rw [nodes_setNext_of_ne (ne_of_mem_of_not_mem hb (hp.apart a ha c))]
      exact hp.isFree c b hb
    · rw [setNext, nodes_modify_self]
      exact ⟨hk.capacity_eq, hk.length_eq, hk.head_eq⟩
  case keyed =>
    intro b hb
    rw [nodes_setPool, capacity_setNext]
    simp only [setPool, Function.update_apply]
    split_ifs
    · exact Option.some_ne_none _
    · exact hp.keyed b hb.1
  case apart =>
    intro b hb c hbc
    rcases mem_update_cons.mp hbc with hbc | ⟨rfl, -⟩
    · exact hp.apart b hb.1 c hbc
    · exact hb.2 rfl
  case created =>
    intro b
    refine (hp.created b).trans ?_
    simp only [mem_update_cons, Set.mem_sdiff, Set.mem_singleton_iff]
    constructor
    · rintro (hb | ⟨c, hb⟩)
      · by_cases hba : b = a
        · exact Or.inr ⟨k, Or.inr ⟨hba, rfl⟩⟩
        · exact Or.inl ⟨hb, hba⟩
      · exact Or.inr ⟨c, Or.inl hb⟩
    · rintro (hb | ⟨c, hb | ⟨rfl, -⟩⟩)
      · exact Or.inl hb.1
      · exact Or.inr ⟨c, hb⟩
      · exact Or.inl ha

/-- The lists when `a`, the first of one, is taken off it. -/
theorem Pooled.mem_update_tail (hp : Pooled h free out) {k b : ℕ} {l : List ℕ}
    (hl : free k = a :: l) : b ∈ Function.update free k l c ↔ b ∈ free c ∧ b ≠ a := by
  have hnodup := hp.nodup k
  rw [hl, List.nodup_cons] at hnodup
  by_cases hck : c = k
  · subst hck
    rw [Function.update_self, hl, List.mem_cons]
    have hne : b ∈ l → b ≠ a := fun hb => ne_of_mem_of_not_mem hb hnodup.1
    tauto
  · rw [Function.update_of_ne hck]
    have hne : b ∈ free c → b ≠ a := by
      rintro hb rfl
      have ha : b ∈ free k := hl ▸ List.mem_cons_self
      exact hck ((hp.eq_capacity hb).trans (hp.eq_capacity ha).symm)
    tauto

/-- The first buffer of the free list of the class `k` is taken off it. -/
theorem Pooled.take (hp : Pooled h free out) {k : ℕ} {l : List ℕ} (hl : free k = a :: l) :
    Pooled ((h.setPool k (h.next a)).setNext a none) (Function.update free k l)
      (insert a out) := by
  have ha : a ∈ free k := hl ▸ List.mem_cons_self
  constructor
  case chain =>
    intro c
    rw [next_setNext]
    have hframe : ∀ b ∈ Function.update free k l c,
        Function.update (h.setPool k (h.next a)).next a none b = h.next b := fun b hb =>
      Function.update_of_ne ((hp.mem_update_tail hl).mp hb).2 _ _
    refine Chain.frame ?_ hframe
    have hc := hp.chain c
    by_cases hck : c = k
    · subst hck
      rw [hl] at hc
      obtain ⟨-, hrest⟩ := hc.of_cons
      simpa [setNext, setPool, BufHeap.modify] using hrest
    · simpa [setNext, setPool, BufHeap.modify, Function.update_of_ne hck] using hc
  case isFree =>
    intro c b hb
    obtain ⟨hb, hba⟩ := (hp.mem_update_tail hl).mp hb
    rw [nodes_setNext_of_ne hba]
    exact hp.isFree c b hb
  case keyed =>
    intro b hb
    rw [capacity_setNext]
    change Function.update h.pool k _ (h.nodes b).capacity ≠ none
    rw [Function.update_apply]
    split_ifs with hbk
    · exact Option.some_ne_none _
    · rcases hb with rfl | hb
      · exact absurd (hp.eq_capacity ha).symm hbk
      · exact hp.keyed b hb
  case apart =>
    intro b hb c hbc
    obtain ⟨hbc, hba⟩ := (hp.mem_update_tail hl).mp hbc
    rcases hb with rfl | hb
    · exact hba rfl
    · exact hp.apart b hb c hbc
  case created =>
    intro b
    refine (hp.created b).trans ?_
    simp only [hp.mem_update_tail hl, Set.mem_insert_iff]
    constructor
    · rintro (hb | ⟨c, hb⟩)
      · exact Or.inl (Or.inr hb)
      · by_cases hba : b = a
        · exact Or.inl (Or.inl hba)
        · exact Or.inr ⟨c, hb, hba⟩
    · rintro ((rfl | hb) | ⟨c, hb, -⟩)
      · exact Or.inr ⟨k, ha⟩
      · exact Or.inl hb
      · exact Or.inr ⟨c, hb⟩

/-- **`revert`** puts a buffer that is out on the list of its capacity; its `assert` holds. -/
theorem Pooled.revert (hp : Pooled h free out) (ha : a ∈ out) :
    ∃ h', h.revert a = .ok h' ∧
      Pooled h' (Function.update free (h.nodes a).capacity (a :: free (h.nodes a).capacity))
        (out \ {a}) ∧
      (∀ b, b ≠ a → h'.nodes b = h.nodes b) ∧
      ∃ p, h'.nodes a = { (h.nodes a).clear with next := p } := by
  obtain ⟨first, hfirst⟩ := Option.ne_none_iff_exists'.mp (hp.keyed a ha)
  have hnode : (h.modify a .clear).nodes a = (h.nodes a).clear := nodes_modify_self ..
  have hclear : ((h.modify a .clear).nodes a).IsFree (h.nodes a).capacity := by
    rw [hnode]
    exact ⟨rfl, rfl, rfl⟩
  refine ⟨_, ?_, (hp.modify ha (BufNode.capacity_clear _)).push ha hfirst hclear, ?_, first, ?_⟩
  · have hpool : (h.modify a .clear).pool (h.nodes a).capacity = some first := hfirst
    simp only [BufHeap.revert, hnode, BufNode.capacity_clear, hpool]
  · intro b hb
    rw [nodes_setPool, nodes_setNext_of_ne hb, nodes_modify_of_ne hb]
  · rw [nodes_setPool, setNext, nodes_modify_self, hnode]

/-- **`alloc_buf`** gives the null pointer and changes nothing, exits when the list is empty, or
takes a buffer off it. -/
theorem Pooled.allocBuf (hp : Pooled h free out) (N : ℤ) :
    (BufPool.index N = none ∧ h.allocBuf N = .ok (none, h)) ∨
    ∃ m, BufPool.index N = some m ∧
      ((free m.size = [] ∧ h.allocBuf N = .error (.halt .exit)) ∨
      ∃ a l h', free m.size = a :: l ∧ h.allocBuf N = .ok (some a, h') ∧
        Pooled h' (Function.update free m.size l) (insert a out) ∧
        (∀ b, b ≠ a → h'.nodes b = h.nodes b) ∧
        h'.nodes a = { h.nodes a with next := none }) := by
  unfold BufHeap.allocBuf
  cases hi : BufPool.index N with
  | none => exact Or.inl ⟨rfl, rfl⟩
  | some m =>
    refine Or.inr ⟨m, rfl, ?_⟩
    dsimp only
    have hchain := hp.chain m.size
    cases hk : (h.pool m.size).join with
    | none =>
      rw [hk] at hchain
      refine Or.inl ⟨hchain.eq_nil, ?_⟩
      dsimp only
      split_ifs
      · rfl
      · rfl
      · exact absurd rfl ‹_›
    | some a =>
      rw [hk] at hchain
      obtain ⟨l, hl, -⟩ := hchain.exists_tail
      refine Or.inr ⟨a, l, _, hl, rfl, hp.take hl, fun b hb => ?_, ?_⟩
      · rw [nodes_setNext_of_ne hb, nodes_setPool]
      · rw [setNext, nodes_modify_self, nodes_setPool]

theorem Pooled.notMem_out (hp : Pooled h free out) {k : ℕ} {l : List ℕ} (hl : free k = a :: l) :
    a ∉ out := fun ha => hp.apart a ha k (hl ▸ List.mem_cons_self)

/-! ## The pool of values -/

/-- The lists of the pool `p` are the values of the buffers on the free lists. -/
def Represents (h : BufHeap) (free : ℕ → List ℕ) (p : BufPool) : Prop :=
  ∀ m : MemCap, (free m.size).map (fun a => (h.nodes a).value m) = p.pool m

variable {p : BufPool}

theorem map_value_congr {l : List ℕ} (hnodes : ∀ a ∈ l, h'.nodes a = h.nodes a) (m : MemCap) :
    l.map (fun a => (h'.nodes a).value m) = l.map fun a => (h.nodes a).value m :=
  List.map_congr_left fun a ha => by rw [hnodes a ha]

/-- Writing to buffers that are not free does not concern the pool. -/
theorem Represents.frame (hr : Represents h free p)
    (hnodes : ∀ m : MemCap, ∀ a ∈ free m.size, h'.nodes a = h.nodes a) :
    Represents h' free p :=
  fun m => (map_value_congr (hnodes m) m).trans (hr m)

/-- **`revert` refines that of `BufPool`.** -/
theorem Pooled.revert_refines (hp : Pooled h free out) (hr : Represents h free p) (ha : a ∈ out)
    {b : IoBuf} (hvalue : (h.nodes a).value b.cap = b)
    (hcap : (h.nodes a).capacity = b.cap.size) :
    ∃ h' free', h.revert a = .ok h' ∧ Pooled h' free' (out \ {a}) ∧
      Represents h' free' (p.revert b) ∧ ∀ c, c ≠ a → h'.nodes c = h.nodes c := by
  obtain ⟨h', hrev, hp', hnodes, next, hnode⟩ := hp.revert ha
  rw [hcap] at hp'
  refine ⟨h', _, hrev, hp', fun m => ?_, hnodes⟩
  have hsame : ∀ c ∈ free m.size, h'.nodes c = h.nodes c := fun c hc =>
    hnodes c (ne_of_mem_of_not_mem hc (hp.apart a ha m.size))
  have hframe : (free m.size).map (fun c => (h'.nodes c).value m) = p.pool m :=
    (map_value_congr hsame m).trans (hr m)
  change _ = Function.update p.pool b.cap (b.clear :: p.pool b.cap) m
  by_cases hm : m = b.cap
  · subst hm
    have hclear : (h'.nodes a).value b.cap = b.clear := by
      rw [hnode, ← hvalue]
      rfl
    rw [Function.update_self, Function.update_self, List.map_cons, hclear, hframe]
  · have hsize : m.size ≠ b.cap.size := fun hs => hm (MemCap.size_injective hs)
    rw [Function.update_of_ne hm, Function.update_of_ne hsize, hframe]

/-- **`alloc_buf` refines that of `BufPool`.** -/
theorem Pooled.allocBuf_refines (hp : Pooled h free out) (hr : Represents h free p) (N : ℤ) :
    (p.allocBuf N = .ok (none, p) ∧ h.allocBuf N = .ok (none, h)) ∨
    (p.allocBuf N = .error .exit ∧ h.allocBuf N = .error (.halt .exit)) ∨
    ∃ a b h' free' p', p.allocBuf N = .ok (some b, p') ∧ h.allocBuf N = .ok (some a, h') ∧
      a ∉ out ∧ (h'.nodes a).value b.cap = b ∧ (h'.nodes a).capacity = b.cap.size ∧
      (∀ c, c ≠ a → h'.nodes c = h.nodes c) ∧
      Pooled h' free' (insert a out) ∧ Represents h' free' p' := by
  rcases hp.allocBuf N with ⟨hi, ha⟩ | ⟨m, hi, ⟨hl, ha⟩ | ⟨a, l, h', hl, ha, hp', hnodes, hnode⟩⟩
  · exact Or.inl ⟨BufPool.allocBuf_of_index_eq_none hi p, ha⟩
  · refine Or.inr (Or.inl ⟨?_, ha⟩)
    have hnil : p.pool m = [] := by rw [← hr m, hl, List.map_nil]
    unfold BufPool.allocBuf
    rw [hi]
    dsimp only
    split
    · simp
    · rename_i b rest hcons
      rw [hnil] at hcons
      cases hcons
  · have hcons : p.pool m = (h.nodes a).value m :: l.map fun a => (h.nodes a).value m := by
      rw [← hr m, hl, List.map_cons]
    obtain ⟨p', halloc, hpool'⟩ := BufPool.allocBuf_of_cons hi hcons
    have hfree := hp.isFree m.size a (hl ▸ List.mem_cons_self)
    refine Or.inr (Or.inr ⟨a, _, h', _, p', halloc, ha, hp.notMem_out hl, ?_, ?_, hnodes, hp',
      fun m' => ?_⟩)
    · rw [hnode]
      rfl
    · rw [hnode]
      exact hfree.capacity_eq
    · have hnotMem : a ∉ Function.update free m.size l m'.size :=
        hp'.apart a (Set.mem_insert a out) _
      rw [hpool', map_value_congr (fun c hc => hnodes c (ne_of_mem_of_not_mem hc hnotMem)) m']
      by_cases hm : m' = m
      · subst hm
        rw [Function.update_self, Function.update_self]
      · have hsize : m'.size ≠ m.size := fun hs => hm (MemCap.size_injective hs)
        rw [Function.update_of_ne hm, Function.update_of_ne hsize, hr m']

/-! ## The constructor -/

theorem nodes_newIoBuf_self (h : BufHeap) (cap : ℕ) :
    (h.newIoBuf cap).2.nodes h.created = .new cap := Function.update_self ..

theorem nodes_newIoBuf_of_lt (ha : a < h.created) (cap : ℕ) :
    (h.newIoBuf cap).2.nodes a = h.nodes a := Function.update_of_ne (Nat.ne_of_lt ha) ..

/-- What a loop of the constructor does: behind `prev`, the last node made, it links new nodes of
the capacity `cap`. -/
theorem extend_spec (cap count prev : ℕ) (h : BufHeap) (hprev : prev < h.created)
    (hlast : h.next prev = none) :
    (extend cap count prev h).created = h.created + count ∧
    (∀ a < h.created, a ≠ prev → (extend cap count prev h).nodes a = h.nodes a) ∧
    (∃ q, (extend cap count prev h).nodes prev = { h.nodes prev with next := q }) ∧
    Chain (extend cap count prev h).next ((extend cap count prev h).next prev)
      (List.range' h.created count) ∧
    ∀ a ∈ List.range' h.created count,
      ∃ q, (extend cap count prev h).nodes a = { BufNode.new cap with next := q } := by
  induction count generalizing prev h with
  | zero =>
    refine ⟨rfl, fun a _ _ => rfl, ⟨_, rfl⟩, ?_, fun a ha => absurd ha (by simp)⟩
    change Chain h.next (h.next prev) []
    rw [hlast]
    exact .nil
  | succ count ih =>
    have hne : prev ≠ h.created := Nat.ne_of_lt hprev
    -- The heap after one turn of the loop, in which the new node is the last.
    obtain ⟨h₁, hh₁⟩ : ∃ h₁, h₁ = (h.newIoBuf cap).2.setNext prev (some h.created) := ⟨_, rfl⟩
    have hextend : extend cap (count + 1) prev h = extend cap count h.created h₁ := by
      rw [hh₁]
      rfl
    have hcreated : h₁.created = h.created + 1 := by
      rw [hh₁]
      rfl
    have hnew : h₁.nodes h.created = .new cap := by
      rw [hh₁, nodes_setNext_of_ne hne.symm, nodes_newIoBuf_self]
    have hold : ∀ a < h.created, a ≠ prev → h₁.nodes a = h.nodes a := by
      intro a ha hap
      rw [hh₁, nodes_setNext_of_ne hap, nodes_newIoBuf_of_lt ha]
    have hnode : h₁.nodes prev = { h.nodes prev with next := some h.created } := by
      rw [hh₁, setNext, nodes_modify_self, nodes_newIoBuf_of_lt hprev]
    obtain ⟨hc, hframe, hlinked, hchain, hnodes⟩ :=
      ih h.created h₁ (by omega) (by rw [next, hnew]; rfl)
    rw [hextend]
    have hprev' : (extend cap count h.created h₁).nodes prev = h₁.nodes prev :=
      hframe prev (by omega) hne
    rw [hcreated] at hc hchain hnodes
    rw [hnew] at hlinked
    refine ⟨by omega, ?_, ⟨_, hprev'.trans hnode⟩, ?_, ?_⟩
    · intro a ha hap
      rw [hframe a (by omega) (Nat.ne_of_lt ha), hold a ha hap]
    · have hnext : (extend cap count h.created h₁).next prev = some h.created := by
        rw [next, hprev', hnode]
      rw [hnext, List.range'_succ]
      exact .cons hchain
    · intro a ha
      rw [List.range'_succ] at ha
      rcases List.mem_cons.mp ha with rfl | ha
      · exact hlinked
      · exact hnodes a ha

theorem pool_extend (cap count prev : ℕ) (h : BufHeap) :
    (extend cap count prev h).pool = h.pool := by
  induction count generalizing prev h with
  | zero => rfl
  | succ count ih => exact ih ..

/-- What the constructor does for one class: it makes `count + 1` nodes and links them, from
`m_pool` on. -/
theorem initList_spec (m : MemCap) (count mem : ℕ) (h : BufHeap) :
    (h.initList m count mem).created = h.created + (count + 1) ∧
    (h.initList m count mem).pool = Function.update h.pool m.size (some (some h.created)) ∧
    (∀ a < h.created, (h.initList m count mem).nodes a = h.nodes a) ∧
    Chain (h.initList m count mem).next (some h.created) (List.range' h.created (count + 1)) ∧
    ∀ a ∈ List.range' h.created (count + 1),
      ∃ q, (h.initList m count mem).nodes a = { BufNode.new m.size with next := q } := by
  obtain ⟨h₁, hh₁⟩ : ∃ h₁, h₁ = (h.newIoBuf m.size).2.setPool m.size (some h.created) := ⟨_, rfl⟩
  have hnew : h₁.nodes h.created = .new m.size := by
    rw [hh₁]
    exact nodes_newIoBuf_self h m.size
  have hold : ∀ a < h.created, h₁.nodes a = h.nodes a := by
    intro a ha
    rw [hh₁]
    exact nodes_newIoBuf_of_lt ha m.size
  have hcreated : h₁.created = h.created + 1 := by
    rw [hh₁]
    rfl
  have hinit : h.initList m count mem =
      { extend m.size count h.created h₁ with
        totalMem := (extend m.size count h.created h₁).totalMem + mem } := by
    rw [hh₁]
    rfl
  obtain ⟨hc, hframe, hlinked, hchain, hnodes⟩ :=
    extend_spec m.size count h.created h₁ (by omega) (by rw [next, hnew]; rfl)
  rw [hcreated] at hc hchain hnodes
  rw [hnew] at hlinked
  rw [hinit, List.range'_succ]
  refine ⟨hc.trans (by omega), ?_, ?_, .cons hchain, ?_⟩
  · change (extend m.size count h.created h₁).pool = _
    rw [pool_extend, hh₁]
    rfl
  · intro a ha
    exact (hframe a (by omega) (Nat.ne_of_lt ha)).trans (hold a ha)
  · intro a ha
    rcases List.mem_cons.mp ha with rfl | ha
    · exact hlinked
    · exact hnodes a ha

/-- The list made for a class is a free list. -/
theorem Pooled.initList (hp : Pooled h free ∅) {m : MemCap} (hm : free m.size = [])
    (count mem : ℕ) :
    Pooled (h.initList m count mem)
      (Function.update free m.size (List.range' h.created (count + 1))) ∅ := by
  obtain ⟨hc, hpool, hold, hchain, hnodes⟩ := initList_spec m count mem h
  have hlt : ∀ c, ∀ a ∈ free c, a < h.created := fun c a ha =>
    (hp.created a).mpr (Or.inr ⟨c, ha⟩)
  constructor
  case chain =>
    intro c
    rw [hpool]
    by_cases hcm : c = m.size
    · subst hcm
      rw [Function.update_self, Function.update_self]
      exact hchain
    · rw [Function.update_of_ne hcm, Function.update_of_ne hcm]
      exact (hp.chain c).frame fun a ha => by rw [next, hold a (hlt c a ha)]; rfl
  case isFree =>
    intro c a ha
    by_cases hcm : c = m.size
    · subst hcm
      rw [Function.update_self] at ha
      obtain ⟨q, hq⟩ := hnodes a ha
      rw [hq]
      exact ⟨rfl, rfl, rfl⟩
    · rw [Function.update_of_ne hcm] at ha
      rw [hold a (hlt c a ha)]
      exact hp.isFree c a ha
  case keyed => exact fun a ha => absurd ha (Set.notMem_empty a)
  case apart => exact fun a ha => absurd ha (Set.notMem_empty a)
  case created =>
    intro a
    rw [hc]
    constructor
    · intro ha
      by_cases hah : a < h.created
      · obtain ⟨c, hc⟩ := ((hp.created a).mp hah).resolve_left (Set.notMem_empty a)
        have hcm : c ≠ m.size := by
          rintro rfl
          rw [hm] at hc
          cases hc
        exact Or.inr ⟨c, by rwa [Function.update_of_ne hcm]⟩
      · refine Or.inr ⟨m.size, ?_⟩
        rw [Function.update_self, List.mem_range'_1]
        omega
    · rintro (ha | ⟨c, ha⟩)
      · exact absurd ha (Set.notMem_empty a)
      by_cases hcm : c = m.size
      · subst hcm
        rw [Function.update_self, List.mem_range'_1] at ha
        omega
      · rw [Function.update_of_ne hcm] at ha
        have := hlt c a ha
        omega

/-- All buffers are free, `n m` of each size `m`, and the pool is that of `BufPool`. -/
def Holds (h : BufHeap) (n : MemCap → ℕ) : Prop :=
  ∃ free, Pooled h free ∅ ∧ Represents h free (.ofCounts n)

theorem holds_empty : Holds empty fun _ => 0 := by
  refine ⟨fun _ => [], ?_, fun m => rfl⟩
  exact ⟨fun c => .nil, fun c a ha => absurd ha List.not_mem_nil,
    fun a ha => absurd ha (Set.notMem_empty a), fun a _ c => List.not_mem_nil,
    fun a => by simp [empty]⟩

theorem Holds.initList {n : MemCap → ℕ} (hh : Holds h n) {m : MemCap} (hm : n m = 0)
    (count mem : ℕ) : Holds (h.initList m count mem) (Function.update n m (count + 1)) := by
  obtain ⟨free, hp, hr⟩ := hh
  have hnil : free m.size = [] := by
    have hrep : List.map _ (free m.size) = List.replicate (n m) _ := hr m
    rw [hm] at hrep
    exact List.map_eq_nil_iff.mp hrep
  refine ⟨_, hp.initList hnil count mem, fun m' => ?_⟩
  obtain ⟨-, -, hold, -, hnodes⟩ := initList_spec m count mem h
  by_cases hmm : m' = m
  · subst hmm
    simp only [BufPool.ofCounts, Function.update_self]
    refine List.eq_replicate_iff.mpr ⟨by simp, fun b hb => ?_⟩
    obtain ⟨a, ha, rfl⟩ := List.mem_map.mp hb
    obtain ⟨q, hq⟩ := hnodes a ha
    rw [hq]
    rfl
  · have hsize : m'.size ≠ m.size := fun hs => hmm (MemCap.size_injective hs)
    have hm' := hr m'
    simp only [BufPool.ofCounts, Function.update_of_ne hsize, Function.update_of_ne hmm] at hm' ⊢
    rw [← hm']
    exact map_value_congr (fun a ha => hold a ((hp.created a).mpr (Or.inr ⟨_, ha⟩))) m'

/-- The number of buffers of each size that the constructor makes. -/
def newCount : MemCap → ℕ
  | .m4K => 5001
  | .m16K => 1001
  | .m64K => 501
  | .m256K => 201
  | .m1M => 51
  | .m4M => 21
  | .m8M => 21

/-- **The constructor** makes a pool with all buffers on the free lists. -/
theorem holds_new : Holds new newCount := by
  have h₁ := holds_empty.initList (m := .m4K) rfl 5000 (5000 * 4)
  have h₂ := h₁.initList (m := .m16K) rfl 1000 (1000 * 16)
  have h₃ := h₂.initList (m := .m64K) rfl 500 (500 * 64)
  have h₄ := h₃.initList (m := .m256K) rfl 200 (200 * 256)
  have h₅ := h₄.initList (m := .m1M) rfl 50 (50 * 1024)
  have h₆ := h₅.initList (m := .m4M) rfl 20 (20 * 4096)
  have h₇ := h₆.initList (m := .m8M) rfl 20 (10 * 8192)
  have hcount : ∀ n, (∀ m, n m = newCount m) → Holds new n → Holds new newCount :=
    fun n hn h => funext hn ▸ h
  exact hcount _ (fun m => by cases m <;> rfl) h₇

end BufHeap

end Lars.Reactor
