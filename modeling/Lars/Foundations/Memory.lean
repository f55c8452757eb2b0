import Mathlib.Data.List.Basic

/-!
# Blocks of memory

A block of memory is seen from its first cell, as a function of the offset. Programs that copy with
`memcpy` and `memmove` only ever `load` a run of cells and `store` a list over a run of cells, and
what they need of a block are the laws of these two: a load after a store of the same run
(`load_store_self`), of a run before it (`load_store_of_le`), of the run it ends
(`load_store_append`), and the cutting of a run in two (`load_add`).
-/

namespace Lars.Memory

variable {β : Type*}

/-- The `n` cells from the offset `off` on. -/
def load (m : ℕ → β) (off n : ℕ) : List β := (List.range n).map fun i => m (off + i)

/-- The block with the list `l` written over the cells from the offset `off` on. -/
def store (m : ℕ → β) (off : ℕ) (l : List β) : ℕ → β :=
  fun i => if i < off then m i else (l[i - off]?).getD (m i)

@[simp] theorem length_load (m : ℕ → β) (off n : ℕ) : (load m off n).length = n := by
  simp [load]

@[simp] theorem load_zero (m : ℕ → β) (off : ℕ) : load m off 0 = [] := rfl

theorem getElem?_load (m : ℕ → β) (off n i : ℕ) :
    (load m off n)[i]? = if i < n then some (m (off + i)) else none := by
  simp only [load, List.getElem?_map]
  split_ifs with h
  · simp [List.getElem?_range h]
  · simp [List.getElem?_eq_none (l := List.range n) (i := i) (by simpa using h)]

/-- A run of cells is its first `a` cells followed by the others. -/
theorem load_add (m : ℕ → β) (off a b : ℕ) :
    load m off (a + b) = load m off a ++ load m (off + a) b := by
  simp [load, List.range_add, Function.comp_def, Nat.add_assoc]

theorem take_load (m : ℕ → β) (off : ℕ) {k n : ℕ} (h : k ≤ n) :
    (load m off n).take k = load m off k := by
  obtain ⟨d, rfl⟩ := Nat.exists_eq_add_of_le h
  rw [load_add, List.take_left' (length_load m off k)]

theorem drop_load (m : ℕ → β) (off : ℕ) {k n : ℕ} (h : k ≤ n) :
    (load m off n).drop k = load m (off + k) (n - k) := by
  obtain ⟨d, rfl⟩ := Nat.exists_eq_add_of_le h
  rw [load_add, List.drop_left' (length_load m off k), Nat.add_sub_cancel_left]

theorem load_congr {m m' : ℕ → β} {off n : ℕ} (h : ∀ i < n, m (off + i) = m' (off + i)) :
    load m off n = load m' off n :=
  List.map_congr_left fun i hi => h i (List.mem_range.mp hi)

/-- A run of cells is unchanged by a store that starts at or after its end. -/
theorem load_store_of_le (m : ℕ → β) (l : List β) {off off' n : ℕ} (h : off' + n ≤ off) :
    load (store m off l) off' n = load m off' n :=
  load_congr fun i hi => by
    have : off' + i < off := by omega
    simp [store, this]

/-- What was stored is what is loaded. -/
@[simp] theorem load_store_self (m : ℕ → β) (off : ℕ) (l : List β) :
    load (store m off l) off l.length = l := by
  refine List.ext_getElem? fun i => ?_
  rw [getElem?_load]
  split_ifs with h
  · have hlt : ¬ off + i < off := by omega
    simp [store, hlt, List.getElem?_eq_getElem h]
  · exact (List.getElem?_eq_none (by omega)).symm

/-- A store right behind a run of cells appends to it. -/
theorem load_store_append (m : ℕ → β) (off n : ℕ) (l : List β) :
    load (store m (off + n) l) off (n + l.length) = load m off n ++ l := by
  rw [load_add, load_store_of_le m l (Nat.le_refl _), load_store_self]

end Lars.Memory
