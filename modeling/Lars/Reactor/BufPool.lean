import Mathlib.Algebra.Order.Ring.Int
import Mathlib.Data.Nat.Cast.Order.Ring
import Lars.Foundations.Run
import Lars.Reactor.IoBuf

/-!
# The buffer pool

`buf_pool` (`lars_reactor/src/buf_pool.cc`) keeps, for each size, a list of free buffers.
`allocBuf` takes a buffer of the first size tried that is large enough, `revert` puts one back.

A call that the process does not survive is an `Except.error`: `exit(1)`, a failed `assert`, or an
operation that C++ leaves undefined (`Halt`). `allocBuf` halts when the list of its size is
exhausted, whatever `EXTRA_MEM_LIMIT` says: after making a new buffer it tests `ret_buf`, which is
null there, instead of `new_buf`.
-/

namespace Lars.Reactor

open Machine

/-- How a call can end the process. -/
inductive Halt
  /-- `exit(1)`. -/
  | exit
  /-- A failed `assert`. -/
  | abort
  /-- Undefined behaviour: an array of negative length, an access past the end of an array. -/
  | undefined
  /-- Undefined behaviour: `io_buf::copy` of bytes that run past the end of their block. -/
  | overread
  deriving DecidableEq

/-- The process ends by `exit`, or in the `copy` of bytes that run past the end of their block. These
are the ends that a `send` can come to. -/
def ExitsOrOverreads {α : Type*} (x : Except Halt α) : Prop :=
  x = .error .exit ∨ x = .error .overread

theorem ExitsOrOverreads.bind {α β : Type} {x : Except Halt α} (hx : ExitsOrOverreads x)
    (f : α → Except Halt β) : ExitsOrOverreads (x >>= f) :=
  hx.imp (fun h => by rw [h]; rfl) fun h => by rw [h]; rfl

theorem ExitsOrOverreads.ne_ok {α : Type*} {x : Except Halt α} (hx : ExitsOrOverreads x) (a : α) :
    x ≠ .ok a := by
  rintro rfl
  rcases hx with h | h <;> cases h

theorem not_exitsOrOverreads_undefined {α : Type*} :
    ¬ ExitsOrOverreads (.error .undefined : Except Halt α) := by
  rintro (h | h) <;> cases h

/-- `EXTRA_MEM_LIMIT`, in KB. -/
def extraMemLimit : ℕ := 5 * 1024 * 1024

/-- A buffer as it lies on the free list of its size. -/
def IoBuf.IsFree (c : MemCap) (b : IoBuf) : Prop := b.cap = c ∧ b.length = 0 ∧ b.head = 0

/-- `buf_pool`: the free lists, and the memory in all buffers made so far, in KB. -/
structure BufPool where
  pool : MemCap → List IoBuf
  totalMem : ℕ
  isFree : ∀ c, ∀ b ∈ pool c, b.IsFree c

namespace BufPool

/-- The pool with another free list for the size `c`. -/
def setList (p : BufPool) (c : MemCap) (l : List IoBuf) (h : ∀ b ∈ l, b.IsFree c) : BufPool where
  pool := Function.update p.pool c l
  totalMem := p.totalMem
  isFree c' b hb := by
    by_cases hc : c' = c
    · subst hc
      exact h b (by simpa using hb)
    · exact p.isFree c' b (by simpa [hc] using hb)

/-- The size `alloc_buf` asks for: the first of those it tries, `m16K` not being among them, that
is at least `N`. -/
def index (N : ℤ) : Option MemCap :=
  if N < 0 then none
  else if N ≤ MemCap.m4K.size then some .m4K
  else if N ≤ MemCap.m64K.size then some .m64K
  else if N ≤ MemCap.m256K.size then some .m256K
  else if N ≤ MemCap.m1M.size then some .m1M
  else if N ≤ MemCap.m4M.size then some .m4M
  else if N ≤ MemCap.m8M.size then some .m8M
  else none

/-- `buf_pool::alloc_buf`; `none` is the null pointer. An argument computed in C++ as a sum past
the range of `int` is negative there and refused, as it is here for being above `m8M`. -/
def allocBuf (N : ℤ) (p : BufPool) : Except Halt (Option IoBuf × BufPool) :=
  match index N with
  | none => .ok (none, p)
  | some index =>
    match hl : p.pool index with
    | [] =>
      let retBuf : Option IoBuf := none
      if p.totalMem + index.size / 1024 > extraMemLimit then .error .exit
      else
        let newBuf := IoBuf.new index fun _ => 0
        if retBuf.isNone then .error .exit
        else .ok (some newBuf, { p with totalMem := p.totalMem + index.size / 1024 })
    | retBuf :: rest =>
      .ok (some retBuf,
        p.setList index rest fun b hb => p.isFree index b (hl ▸ List.mem_cons_of_mem _ hb))

/-- `buf_pool::revert`. Its `assert` holds by the type of buffers. -/
def revert (buf : IoBuf) (p : BufPool) : BufPool :=
  p.setList buf.cap (buf.clear :: p.pool buf.cap) fun b hb => by
    rcases List.mem_cons.mp hb with rfl | hb
    · exact ⟨rfl, rfl, rfl⟩
    · exact p.isFree buf.cap b hb

/-- The pool with `n c` free buffers of each size `c`, all zero. -/
def ofCounts (n : MemCap → ℕ) : BufPool where
  pool c := List.replicate (n c) (IoBuf.new c fun _ => 0)
  totalMem := 0
  isFree c b hb := by
    rw [List.eq_of_mem_replicate hb]
    exact ⟨rfl, rfl, rfl⟩

theorem le_size_of_index {N : ℤ} {c : MemCap} (h : index N = some c) : N ≤ c.size := by
  unfold index at h
  split_ifs at h with h₀ h₁ h₂ h₃ h₄ h₅ h₆ <;> cases h <;> assumption

/-- A size is found exactly for the requests from `0` to `m8M`. -/
theorem index_eq_none_iff {N : ℤ} : index N = none ↔ N < 0 ∨ (MemCap.m8M.size : ℤ) < N := by
  unfold index
  split_ifs <;> simp only [MemCap.size] at * <;> simp <;> omega

theorem allocBuf_of_index_eq_none {N : ℤ} (h : index N = none) (p : BufPool) :
    allocBuf N p = .ok (none, p) := by
  unfold allocBuf
  rw [h]

/-- From a list that is not empty, `allocBuf` hands out the first buffer. -/
theorem allocBuf_of_cons {N : ℤ} {p : BufPool} {c : MemCap} {b : IoBuf} {rest : List IoBuf}
    (hi : index N = some c) (hl : p.pool c = b :: rest) :
    ∃ p', allocBuf N p = .ok (some b, p') ∧ p'.pool = Function.update p.pool c rest := by
  unfold allocBuf
  rw [hi]
  dsimp only
  split
  · rename_i hnil
    rw [hl] at hnil
    cases hnil
  · rename_i b' rest' hcons
    rw [hl] at hcons
    obtain ⟨rfl, rfl⟩ := List.cons.inj hcons
    exact ⟨_, rfl, rfl⟩

/-- What `allocBuf` can do: refuse a request out of range, exit, or hand out an empty buffer that is
large enough. -/
theorem allocBuf_cases (N : ℤ) (p : BufPool) :
    (allocBuf N p = .ok (none, p) ∧ index N = none) ∨
    (allocBuf N p = .error .exit ∧ index N ≠ none) ∨
    ∃ b p', allocBuf N p = .ok (some b, p') ∧ index N = some b.cap ∧ N ≤ b.capacity ∧
      b.length = 0 ∧ b.head = 0 := by
  cases hi : index N with
  | none => exact Or.inl ⟨allocBuf_of_index_eq_none hi p, rfl⟩
  | some c =>
    right
    unfold allocBuf
    rw [hi]
    dsimp only
    split
    · left
      simp
    · rename_i b rest hl
      obtain ⟨rfl, hlen, hhead⟩ := p.isFree c b (hl ▸ List.mem_cons_self)
      exact Or.inr ⟨b, _, rfl, rfl, le_size_of_index hi, hlen, hhead⟩

end BufPool

end Lars.Reactor
