import Mathlib.Tactic.SplitIfs
import Lars.Foundations.Memory

/-!
# The buffers

`io_buf` (`lars_reactor/src/io_buf.cc`) is a block of memory with the run of valid bytes in it:
`length` bytes from the offset `head` on. All buffers are made by the pool in one of the sizes of
`MEM_CAP`, so the size is part of a buffer's type. The link `m_next` is left to the pool, which
keeps its free buffers in lists.

A buffer is known to its users through `contents`, the valid bytes; each operation has a lemma
saying what it does to them.
-/

namespace Lars.Reactor

open Memory

/-- `MEM_CAP`: the sizes of the pool's buffers. -/
inductive MemCap
  | m4K
  | m16K
  | m64K
  | m256K
  | m1M
  | m4M
  | m8M
  deriving DecidableEq

namespace MemCap

/-- The number of bytes of a size. -/
def size : MemCap → ℕ
  | m4K => 4096
  | m16K => 16384
  | m64K => 65536
  | m256K => 262144
  | m1M => 1048576
  | m4M => 4194304
  | m8M => 8388608

theorem size_injective : Function.Injective size := by
  intro c c' h
  cases c <;> cases c' <;> first | rfl | exact absurd h (by decide)

theorem le_size (c : MemCap) : m4K.size ≤ c.size := by
  cases c <;> decide

theorem size_le (c : MemCap) : c.size ≤ 8388608 := by
  cases c <;> decide

end MemCap

/-- `io_buf`: the block `data` of `cap.size` bytes, of which `length` from `head` on are valid. -/
structure IoBuf where
  data : ℕ → UInt8
  cap : MemCap
  length : ℕ
  head : ℕ

namespace IoBuf

/-- `io_buf::io_buf`; the new block is given with whatever it holds. -/
def new (cap : MemCap) (data : ℕ → UInt8) : IoBuf := ⟨data, cap, 0, 0⟩

/-- `m_capacity`. -/
def capacity (b : IoBuf) : ℕ := b.cap.size

/-- `io_buf::clear`. -/
def clear (b : IoBuf) : IoBuf := { b with head := 0, length := 0 }

/-- `io_buf::adjust`: move the valid bytes to the front of the block. -/
def adjust (b : IoBuf) : IoBuf :=
  if b.head > 0 then
    { b with
      data := if b.length > 0 then store b.data 0 (load b.data b.head b.length) else b.data
      head := 0 }
  else b

/-- `io_buf::copy`: take over the valid bytes of another buffer. -/
def copy (b other : IoBuf) : IoBuf :=
  { b with data := store b.data 0 (load other.data other.head other.length),
           length := other.length, head := 0 }

/-- `io_buf::pop`: drop `len` bytes, at most `length`, at the front. -/
def pop (b : IoBuf) (len : ℕ) : IoBuf := { b with head := b.head + len, length := b.length - len }

/-- The bytes put at `m_data + m_length`, which is behind the valid bytes when `head` is zero:
the effect of the `memcpy` of `write_data` and of the `read` of `read_data`. -/
def append (b : IoBuf) (l : List UInt8) : IoBuf :=
  { b with data := store b.data b.length l, length := b.length + l.length }

/-- The valid bytes are at the start of the block, and within it. -/
structure Front (b : IoBuf) : Prop where
  head_eq : b.head = 0
  length_le : b.length ≤ b.capacity

/-- The valid bytes. -/
def contents (b : IoBuf) : List UInt8 := load b.data b.head b.length

@[simp] theorem length_contents (b : IoBuf) : b.contents.length = b.length := length_load ..

@[simp] theorem length_pop (b : IoBuf) (len : ℕ) : (b.pop len).length = b.length - len := rfl

@[simp] theorem capacity_pop (b : IoBuf) (len : ℕ) : (b.pop len).capacity = b.capacity := rfl

theorem cap_adjust (b : IoBuf) : b.adjust.cap = b.cap := by
  rw [adjust]; split_ifs <;> rfl

@[simp] theorem capacity_adjust (b : IoBuf) : b.adjust.capacity = b.capacity :=
  congrArg MemCap.size b.cap_adjust

@[simp] theorem length_adjust (b : IoBuf) : b.adjust.length = b.length := by
  rw [adjust]; split_ifs <;> rfl

@[simp] theorem head_adjust (b : IoBuf) : b.adjust.head = 0 := by
  by_cases h : b.head > 0
  · simp [adjust, h]
  · rw [adjust, if_neg h]
    exact Nat.eq_zero_of_not_pos h

@[simp] theorem contents_adjust (b : IoBuf) : b.adjust.contents = b.contents := by
  rw [adjust]
  split_ifs with h₁ h₂
  · have := load_store_self b.data 0 (load b.data b.head b.length)
    rwa [length_load] at this
  · have h₀ : b.length = 0 := by omega
    simp [contents, h₀]
  · rfl

@[simp] theorem contents_copy (b other : IoBuf) : (b.copy other).contents = other.contents := by
  have := load_store_self b.data 0 (load other.data other.head other.length)
  rwa [length_load] at this

theorem contents_pop (b : IoBuf) {len : ℕ} (h : len ≤ b.length) :
    (b.pop len).contents = b.contents.drop len := (drop_load b.data b.head h).symm

theorem contents_append {b : IoBuf} (h : b.head = 0) (l : List UInt8) :
    (b.append l).contents = b.contents ++ l := by
  have := load_store_append b.data 0 b.length l
  rw [Nat.zero_add] at this
  simpa only [contents, append, h] using this

end IoBuf

end Lars.Reactor
