import Mathlib.Data.List.Basic
import Mathlib.Logic.Function.Basic

/-!
# Tables and the last writes to them

A table from keys to values after a list of writes holds, for each key, the value last written to
it, or what it held before (`writeAll_apply`). What it holds after an entry has been written or
erased is said by `update_eq_some`.

Several writers write to one table, each its own writes in order. The list of what they do, each
write with its writer, is an interleaving of their `part`s. Whatever the interleaving, the last
write to a key is the last write to it of one of the writers (`exists_lastWrite_part`).
-/

namespace Lars

universe u v w

variable {κ : Type u} {ν : Type v} [DecidableEq κ]

/-! ## Entries -/

/-- The entries of a table after one has been changed. -/
theorem update_eq_some {t : κ → Option ν} {k k' : κ} {o : Option ν} {v : ν} :
    Function.update t k o k' = some v ↔ k' = k ∧ o = some v ∨ k' ≠ k ∧ t k' = some v := by
  rw [Function.update_apply, ite_eq_iff]

/-- The entries of a table after one has been erased. -/
theorem update_none_eq_some {t : κ → Option ν} {k k' : κ} {v : ν} :
    Function.update t k none k' = some v ↔ k' ≠ k ∧ t k' = some v := by
  rw [update_eq_some, or_iff_right]
  rintro ⟨-, h⟩
  cases h

/-- A value that no other key has can be given to a key of a table in which all values differ. -/
theorem update_injective {t : κ → Option ν} {k : κ} {o : Option ν}
    (ht : ∀ {i j v}, t i = some v → t j = some v → i = j)
    (ho : ∀ {i v}, o = some v → i ≠ k → t i ≠ some v) {i j : κ} {v : ν}
    (hi : Function.update t k o i = some v) (hj : Function.update t k o j = some v) : i = j := by
  rcases update_eq_some.mp hi with ⟨rfl, hiv⟩ | ⟨hik, hiv⟩ <;>
    rcases update_eq_some.mp hj with ⟨rfl, hjv⟩ | ⟨hjk, hjv⟩
  · rfl
  · exact absurd hjv (ho hiv hjk)
  · exact absurd hiv (ho hjv hik)
  · exact ht hiv hjv

/-! ## Last writes -/

/-- The value that the writes write last to a key. -/
def lastWrite (k : κ) : List (κ × ν) → Option ν
  | [] => none
  | (k', v) :: ws => (lastWrite k ws).or (if k' = k then some v else none)

@[simp] theorem lastWrite_nil (k : κ) : lastWrite k ([] : List (κ × ν)) = none := rfl

theorem lastWrite_cons (k k' : κ) (v : ν) (ws : List (κ × ν)) :
    lastWrite k ((k', v) :: ws) = (lastWrite k ws).or (if k' = k then some v else none) := rfl

theorem lastWrite_append (k : κ) (ws ws' : List (κ × ν)) :
    lastWrite k (ws ++ ws') = (lastWrite k ws').or (lastWrite k ws) := by
  induction ws with
  | nil => rw [List.nil_append, lastWrite_nil, Option.or_none]
  | cons p ws ih =>
    obtain ⟨k', v⟩ := p
    rw [List.cons_append, lastWrite_cons, lastWrite_cons, ih, Option.or_assoc]

/-- Nothing is written last to a key if and only if nothing is written to it. -/
theorem lastWrite_eq_none_iff {k : κ} {ws : List (κ × ν)} :
    lastWrite k ws = none ↔ ∀ p ∈ ws, p.1 ≠ k := by
  induction ws with
  | nil => simp
  | cons p ws ih =>
    obtain ⟨k', v⟩ := p
    rw [lastWrite_cons, Option.or_eq_none_iff, ih, List.forall_mem_cons, and_comm]
    refine and_congr_left' ?_
    split
    · next h => simp [h]
    · next h => simp [h]

theorem mem_of_lastWrite {k : κ} {v : ν} {ws : List (κ × ν)} (h : lastWrite k ws = some v) :
    (k, v) ∈ ws := by
  induction ws with
  | nil => cases h
  | cons p ws ih =>
    obtain ⟨k', v'⟩ := p
    rw [lastWrite_cons, Option.or_eq_some_iff] at h
    rcases h with h | ⟨-, h⟩
    · exact List.mem_cons_of_mem _ (ih h)
    · split_ifs at h with hk
      obtain rfl : v' = v := Option.some.inj h
      exact hk ▸ List.mem_cons_self

/-! ## Tables -/

/-- A write to a table. -/
def write (t : κ → Option ν) (p : κ × ν) : κ → Option ν := Function.update t p.1 (some p.2)

/-- A list of writes to a table. -/
def writeAll (t : κ → Option ν) (ws : List (κ × ν)) : κ → Option ν := ws.foldl write t

@[simp] theorem writeAll_cons (t : κ → Option ν) (p : κ × ν) (ws : List (κ × ν)) :
    writeAll t (p :: ws) = writeAll (write t p) ws := rfl

theorem writeAll_append (t : κ → Option ν) (ws ws' : List (κ × ν)) :
    writeAll t (ws ++ ws') = writeAll (writeAll t ws) ws' := List.foldl_append

/-- A table holds what was written last. -/
theorem writeAll_apply (t : κ → Option ν) (ws : List (κ × ν)) (k : κ) :
    writeAll t ws k = (lastWrite k ws).or (t k) := by
  induction ws generalizing t with
  | nil => rfl
  | cons p ws ih =>
    obtain ⟨k', v⟩ := p
    rw [writeAll_cons, ih, lastWrite_cons, Option.or_assoc]
    congr 1
    by_cases h : k' = k
    · subst h
      simp [write]
    · simp [write, h, Function.update_of_ne (Ne.symm h)]

/-! ## Several writers -/

section Writers

variable {ℓ : Type w} [DecidableEq ℓ]

/-- What writer `l` writes. -/
def part (l : ℓ) (ws : List (ℓ × κ × ν)) : List (κ × ν) :=
  (ws.filter fun p => p.1 = l).map Prod.snd

omit [DecidableEq κ] in
@[simp] theorem part_nil (l : ℓ) : part l ([] : List (ℓ × κ × ν)) = [] := rfl

omit [DecidableEq κ] in
theorem part_cons (l l' : ℓ) (p : κ × ν) (ws : List (ℓ × κ × ν)) :
    part l ((l', p) :: ws) = (if l' = l then [p] else []) ++ part l ws := by
  by_cases h : l' = l
  · simp [part, h]
  · simp [part, h]

omit [DecidableEq κ] in
theorem part_append (l : ℓ) (ws ws' : List (ℓ × κ × ν)) :
    part l (ws ++ ws') = part l ws ++ part l ws' := by
  simp [part]

omit [DecidableEq κ] in
theorem mem_part_iff {l : ℓ} {p : κ × ν} {ws : List (ℓ × κ × ν)} :
    p ∈ part l ws ↔ (l, p) ∈ ws := by
  simp [part]

/-- The last write to a key is one of a writer, and the last of that writer. -/
theorem exists_lastWrite_part {k : κ} {v : ν} {ws : List (ℓ × κ × ν)}
    (h : lastWrite k (ws.map Prod.snd) = some v) : ∃ l, lastWrite k (part l ws) = some v := by
  induction ws with
  | nil => cases h
  | cons p ws ih =>
    obtain ⟨l', k', v'⟩ := p
    rw [List.map_cons, lastWrite_cons] at h
    cases hlast : lastWrite k (ws.map Prod.snd) with
    | some v'' =>
      rw [hlast, Option.some_or] at h
      obtain ⟨l, hl⟩ := ih (hlast.trans h)
      refine ⟨l, ?_⟩
      rw [part_cons, lastWrite_append, hl, Option.some_or]
    | none =>
      -- The write at hand is the last one, hence also the last of its writer.
      rw [hlast, Option.none_or] at h
      have hnone : lastWrite k (part l' ws) = none := by
        rw [lastWrite_eq_none_iff] at hlast ⊢
        exact fun p hp => hlast p (List.mem_map_of_mem (mem_part_iff.mp hp))
      refine ⟨l', ?_⟩
      rw [part_cons, lastWrite_append, hnone, Option.none_or, if_pos rfl, lastWrite_cons,
        lastWrite_nil, Option.none_or, h]

/-- If all writers that write to a key write the same to it last, that is what the key holds. -/
theorem lastWrite_eq_some {k : κ} {v : ν} {ws : List (ℓ × κ × ν)}
    (hsome : ∃ p ∈ ws, p.2.1 = k) (h : ∀ l v', lastWrite k (part l ws) = some v' → v' = v) :
    lastWrite k (ws.map Prod.snd) = some v := by
  cases hlast : lastWrite k (ws.map Prod.snd) with
  | none =>
    obtain ⟨p, hp, hk⟩ := hsome
    exact absurd hk (lastWrite_eq_none_iff.mp hlast p.2 (List.mem_map_of_mem hp))
  | some v' =>
    obtain ⟨l, hl⟩ := exists_lastWrite_part hlast
    rw [h l v' hl]

end Writers

end Lars
