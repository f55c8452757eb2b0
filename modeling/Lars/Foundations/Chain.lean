import Mathlib.Data.List.Nodup
import Mathlib.Logic.Function.Basic

/-!
# Linked lists

Cells hold a pointer to the next cell, or null; `next` reads it. `Chain next start l` says that from
`start` the pointers lead through the cells `l`, in order, to null. The cells of such a list are
determined by `start` and no two of them are equal, since the pointers of a cycle never come to
null.

`follow next k start` is where `k` steps lead; in a list they lead to the cell at position `k`.
-/

namespace Lars

variable {α : Type*} {next next' : α → Option α} {start : Option α} {l l' : List α} {a : α}

/-- From `start` the pointers lead through the cells `l` to null. -/
inductive Chain (next : α → Option α) : Option α → List α → Prop
  | nil : Chain next none []
  | cons {a : α} {l : List α} (h : Chain next (next a) l) : Chain next (some a) (a :: l)

/-- Follow the pointers for `k` steps. -/
def follow (next : α → Option α) : ℕ → Option α → Option α
  | 0, start => start
  | k + 1, start => follow next k (start.bind next)

namespace Chain

theorem eq_nil (h : Chain next none l) : l = [] := by
  cases h
  rfl

theorem eq_none (h : Chain next start []) : start = none := by
  cases h
  rfl

/-- A list that starts with a cell goes on after it. -/
theorem exists_tail (h : Chain next (some a) l) :
    ∃ l', l = a :: l' ∧ Chain next (next a) l' := by
  cases h with
  | cons h => exact ⟨_, rfl, h⟩

theorem of_cons (h : Chain next start (a :: l)) : start = some a ∧ Chain next (next a) l := by
  cases h with
  | cons h => exact ⟨rfl, h⟩

theorem unique (h : Chain next start l) (h' : Chain next start l') : l = l' := by
  induction h generalizing l' with
  | nil => exact h'.eq_nil.symm
  | cons _ ih =>
    obtain ⟨l₁, rfl, h₁⟩ := h'.exists_tail
    rw [ih h₁]

/-- Of a list, what comes from one of its cells on is a list. -/
theorem exists_suffix (h : Chain next start l) (ha : a ∈ l) :
    ∃ l', l' <:+ l ∧ Chain next (some a) l' := by
  induction h with
  | nil => cases ha
  | @cons b l h ih =>
    rcases List.mem_cons.mp ha with rfl | ha
    · exact ⟨a :: l, List.suffix_refl _, .cons h⟩
    · obtain ⟨l', hl', h'⟩ := ih ha
      exact ⟨l', hl'.trans (List.suffix_cons b l), h'⟩

/-- **There are no cycles**: the cells of a list are distinct. -/
theorem nodup (h : Chain next start l) : l.Nodup := by
  induction h with
  | nil => exact List.nodup_nil
  | @cons a l h ih =>
    refine List.nodup_cons.mpr ⟨fun ha => ?_, ih⟩
    -- From `a` on there would be two lists, the whole and a part of the rest.
    obtain ⟨l', hl', h'⟩ := h.exists_suffix ha
    have heq : a :: l = l' := (Chain.cons h).unique h'
    have hlen := hl'.length_le
    rw [← heq, List.length_cons] at hlen
    omega

/-- Writing to cells that are not on a list leaves it. -/
theorem frame (h : Chain next start l) (hnext : ∀ a ∈ l, next' a = next a) :
    Chain next' start l := by
  induction h with
  | nil => exact .nil
  | @cons a l _ ih =>
    rw [← hnext a List.mem_cons_self] at ih
    exact .cons (ih fun b hb => hnext b (List.mem_cons_of_mem a hb))

/-- A cell that is not on a list can be put in front of it. -/
theorem push [DecidableEq α] (h : Chain next start l) (ha : a ∉ l) :
    Chain (Function.update next a start) (some a) (a :: l) := by
  refine .cons ?_
  rw [Function.update_self]
  exact h.frame fun b hb => Function.update_of_ne (ne_of_mem_of_not_mem hb ha) _ _

/-- `k` steps lead to the cell at position `k`. -/
theorem follow_eq (h : Chain next start l) (k : ℕ) : follow next k start = l[k]? := by
  induction h generalizing k with
  | nil =>
    induction k with
    | zero => rfl
    | succ k ih => exact ih
  | cons _ ih =>
    cases k with
    | zero => rfl
    | succ k => exact ih k

end Chain

end Lars
