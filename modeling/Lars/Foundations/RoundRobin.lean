import Mathlib.Data.Int.CardIntervalMod
import Mathlib.Data.List.Rotate

/-!
# Turns

Of a list of things that happen one after another, those with `p` are the turns of a round robin
over `n` positions: the turn that comes after `k` others is that of position `k % n`. Whatever
happens between them, no position has two turns more than another (`turnsOf_le`).

A list that is rotated at every turn has the element in turn at its head (`head?_rotate_mod`).
-/

namespace Lars.RoundRobin

universe u

variable {α : Type u}

/-- The number of turns before the thing at `i`. -/
def turnAt (p : α → Bool) (xs : List α) (i : ℕ) : ℕ := (xs.take i).countP p

/-- The number of the first `k` things that are turns of position `j`. -/
def turnsOf (p : α → Bool) (n j : ℕ) (xs : List α) (k : ℕ) : ℕ :=
  Nat.count (fun i => xs[i]?.any p = true ∧ turnAt p xs i % n = j) k

@[simp] theorem turnAt_length (p : α → Bool) (xs : List α) :
    turnAt p xs xs.length = xs.countP p := by
  rw [turnAt, List.take_length]

theorem turnAt_append {p : α → Bool} {xs : List α} (ys : List α) {i : ℕ} (hi : i ≤ xs.length) :
    turnAt p (xs ++ ys) i = turnAt p xs i := by
  rw [turnAt, turnAt, List.take_append_of_le_length hi]

theorem turnAt_succ (p : α → Bool) (xs : List α) (i : ℕ) :
    turnAt p xs (i + 1) = turnAt p xs i + if xs[i]?.any p = true then 1 else 0 := by
  rw [turnAt, turnAt, List.take_add_one, List.countP_append]
  cases h : xs[i]? with
  | none => rfl
  | some x =>
    rw [Option.toList_some, List.countP_singleton]
    rfl

/-- The turns of a position are those whose numbers leave it as remainder. -/
theorem turnsOf_eq (p : α → Bool) (n j : ℕ) (xs : List α) (k : ℕ) :
    turnsOf p n j xs k = Nat.count (fun t => t % n = j) (turnAt p xs k) := by
  induction k with
  | zero => rfl
  | succ k ih =>
    have hsucc : turnsOf p n j xs (k + 1) = turnsOf p n j xs k +
        if xs[k]?.any p = true ∧ turnAt p xs k % n = j then 1 else 0 := Nat.count_succ _ _
    rw [hsucc, turnAt_succ, ih]
    by_cases h : xs[k]?.any p = true
    · rw [if_pos h, Nat.count_succ]
      simp only [h, true_and]
    · rw [if_neg h, if_neg fun hand => h hand.1]
      rfl

/-- **Fairness**: no position has two turns more than another. -/
theorem turnsOf_le (p : α → Bool) {n j j' : ℕ} (hj : j < n) (hj' : j' < n) (xs : List α) (k : ℕ) :
    turnsOf p n j xs k ≤ turnsOf p n j' xs k + 1 := by
  have hcount : ∀ {r}, r < n → ∀ b, Nat.count (fun t => t % n = r) b =
      b / n + if r % n < b % n then 1 else 0 := by
    intro r hr b
    rw [← Nat.count_modEq_card b (Nat.zero_lt_of_lt hr) r]
    simp only [Nat.ModEq, Nat.mod_eq_of_lt hr]
  rw [turnsOf_eq, turnsOf_eq, hcount hj, hcount hj']
  split <;> split <;> omega

/-- The head of a list that has been rotated is the element in turn. -/
theorem head?_rotate_mod {l : List α} (hl : l ≠ []) (k : ℕ) :
    (l.rotate k).head? = l[k % l.length]? := by
  rw [← List.rotate_mod]
  exact List.head?_rotate (Nat.mod_lt k (List.length_pos_iff.mpr hl))

end Lars.RoundRobin
