import Mathlib.Algebra.Order.Ring.Nat
import Mathlib.Data.List.DropRight
import Mathlib.Data.List.Infix

/-!
# Stretches between marks

A counter that goes through a list, counting the hits, and is put back to zero at the marks. It
never shows more than `n` if and only if no stretch of the list without a mark has more hits
(`since_le_iff`).
-/

namespace Lars.Stretches

universe u

variable {α : Type u} (mark hit : α → Bool)

/-- The counter after `l`, if it has shown `k` before. -/
def since (k : ℕ) (l : List α) : ℕ :=
  l.foldl (fun k a => if mark a then 0 else if hit a then k + 1 else k) k

variable {mark hit}

theorem since_append (k : ℕ) (l l' : List α) :
    since mark hit k (l ++ l') = since mark hit (since mark hit k l) l' := List.foldl_append

/-- Without a mark the hits are counted on. -/
theorem since_stretch {seg : List α} (h : ∀ a ∈ seg, mark a = false) (k : ℕ) :
    since mark hit k seg = k + seg.countP hit := by
  induction seg generalizing k with
  | nil => rfl
  | cons a seg ih =>
    have ha : mark a = false := h a List.mem_cons_self
    have htail := ih fun b hb => h b (List.mem_cons_of_mem a hb)
    rw [since, List.foldl_cons, ← since, htail, List.countP_cons, ha, if_neg Bool.false_ne_true]
    split_ifs <;> omega

/-- From zero, the counter shows the hits of the longest stretch at the end. -/
theorem since_zero (l : List α) :
    since mark hit 0 l = (l.rtakeWhile fun a => !mark a).countP hit := by
  induction l using List.reverseRecOn with
  | nil => rfl
  | append_singleton l a ih =>
    rw [since_append, ih, List.rtakeWhile_concat]
    cases ha : mark a with
    | true => simp [since, ha]
    | false =>
      rw [since_stretch (by simpa using ha), if_pos (by rfl), List.countP_append]

theorem since_le_cons {k n : ℕ} (hk : k ≤ n) (a : α) (l : List α) :
    (∀ p, p <+: a :: l → since mark hit k p ≤ n) ↔
      ∀ p, p <+: l → since mark hit (since mark hit k [a]) p ≤ n := by
  constructor
  · exact fun h p hp => h (a :: p) (List.cons_prefix_cons.mpr ⟨rfl, hp⟩)
  · intro h p hp
    cases p with
    | nil => exact hk
    | cons b p =>
      obtain ⟨rfl, htail⟩ := List.cons_prefix_cons.mp hp
      exact h p htail

/-- **The counter never shows more than `n`** if and only if no stretch has more hits. -/
theorem since_le_iff {l : List α} {n : ℕ} :
    (∀ p, p <+: l → since mark hit 0 p ≤ n) ↔
      ∀ seg, seg <:+: l → (∀ a ∈ seg, mark a = false) → seg.countP hit ≤ n := by
  constructor
  · rintro h seg ⟨p, q, rfl⟩ hseg
    have hle := h (p ++ seg) (List.prefix_append (p ++ seg) q)
    rw [since_append, since_stretch hseg] at hle
    omega
  · intro h p hp
    rw [since_zero]
    refine h _ ((List.rtakeWhile_suffix _ p).isInfix.trans hp.isInfix) fun a ha => ?_
    simpa using List.mem_rtakeWhile_imp ha

end Lars.Stretches
