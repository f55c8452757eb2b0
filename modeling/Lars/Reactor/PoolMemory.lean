import Mathlib.Algebra.BigOperators.Intervals
import Lars.Reactor.PoolClasses

/-!
# The memory counted by the pool

The constructor of `buf_pool` adds to `m_total_mem` a number for each class that is written apart
from the loop that makes the buffers. The first buffer of a list is made before the loop and not
counted, and of the loop that makes twenty buffers of 8M ten are counted.

No buffer is made later, so that in every state that the pool comes to `m_total_mem` is the same
number of KB short of the buffers made, which are below the limit (`Called.not_accounted`).
-/

namespace Lars.Reactor

namespace BufHeap

/-- The bytes of all buffers made. -/
def createdMem (h : BufHeap) : ℕ := ∑ a ∈ Finset.range h.created, (h.nodes a).capacity

/-- `m_total_mem` is the memory of all buffers made, in KB, and within the limit. -/
structure Accounted (h : BufHeap) : Prop where
  total : h.totalMem * 1024 = h.createdMem
  limit : h.createdMem ≤ extraMemLimit * 1024

variable {h : BufHeap}

theorem SameMemory.createdMem_eq {h' : BufHeap} (hs : SameMemory h h') :
    h'.createdMem = h.createdMem := by
  rw [createdMem, createdMem, hs.created_eq]
  exact Finset.sum_congr rfl fun a _ => hs.capacity_eq a

/-- What the constructor makes for one class, whatever it counts. -/
theorem createdMem_initList (c : MemCap) (count mem : ℕ) (h : BufHeap) :
    (initList c count mem h).createdMem = h.createdMem + (count + 1) * c.size := by
  obtain ⟨hcreated, -, hold, -, hnew⟩ := initList_spec c count mem h
  have hfirst : ∀ a ∈ Finset.range h.created,
      ((initList c count mem h).nodes a).capacity = (h.nodes a).capacity := fun a ha => by
    rw [hold a (Finset.mem_range.mp ha)]
  have hlast : ∀ k ∈ Finset.range (count + 1),
      ((initList c count mem h).nodes (h.created + k)).capacity = c.size := by
    intro k hk
    obtain ⟨q, hq⟩ := hnew (h.created + k)
      (List.mem_range'_1.mpr ⟨Nat.le_add_right _ _, Nat.add_lt_add_left (Finset.mem_range.mp hk) _⟩)
    rw [hq]
    rfl
  rw [createdMem, hcreated, Finset.sum_range_add, Finset.sum_congr rfl hfirst,
    Finset.sum_congr rfl hlast, Finset.sum_const, Finset.card_range, nsmul_eq_mul]
  rfl

/-- The memory of the buffers made by the constructor. -/
theorem createdMem_new : new.createdMem = 429812 * 1024 := by
  have hempty : empty.createdMem = 0 := Finset.sum_range_zero _
  simp only [new, createdMem_initList, hempty]
  rfl

/-- **The memory is not accounted** in any state that the pool comes to: more than 93M of what has
been made are not counted, though all is within the limit. -/
theorem Called.not_accounted (hc : Called h) :
    ¬ h.Accounted ∧ h.createdMem = (h.totalMem + 95572) * 1024 ∧
      h.createdMem ≤ extraMemLimit * 1024 := by
  have hmade : h.createdMem = 429812 * 1024 := hc.sameMemory.createdMem_eq.trans createdMem_new
  rw [hc.totalMem_eq, hmade]
  refine ⟨fun hacc => ?_, rfl, by decide⟩
  have htotal := hacc.total
  rw [hc.totalMem_eq, hmade] at htotal
  exact absurd htotal (by decide)

theorem not_accounted_reverted : ∃ h₁ a h₂, new.allocBuf 5000 = .ok (some a, h₁) ∧
    (h₁.modify a fun b => b.append [1, 2, 3]).revert a = .ok h₂ ∧
    ¬ h₂.Accounted ∧ h₂.createdMem = (h₂.totalMem + 95572) * 1024 ∧
      h₂.createdMem ≤ extraMemLimit * 1024 := by
  obtain ⟨h₁, a, h₂, out, ha, hrev, hr⟩ := reachable_reverted
  exact ⟨h₁, a, h₂, ha, hrev, hr.called.not_accounted⟩

/-- The pool as the constructor leaves it. -/
theorem not_forall_accounted : ¬ ∀ h, Called h → h.Accounted := by
  intro hall
  have htotal := (hall new .new).total
  rw [totalMem_new, createdMem_new] at htotal
  exact absurd htotal (by decide)

end BufHeap

end Lars.Reactor
