import Lars.Foundations.Chain
import Lars.Reactor.ReactorBuf

/-!
# The buffers in memory

`BufPool` has its free buffers in lists of values. Here they are as they lie in memory: an `io_buf`
is a node at an address, `m_pool` maps a capacity to the first node of a list linked by `m_next`,
and a `reactor_buf` holds the address of its buffer, or null.

Addresses are numbers in the order in which the nodes are made; none is ever freed
(`buf_pool::~buf_pool` does nothing). A `read` past the end of its block, and a `copy` of bytes that
run past the end of theirs, end the process as undefined. `adjust` is called on input buffers only,
whose bytes are within their block. `m_length` and `m_head` do not wrap around.
-/

namespace Lars.Reactor

open Machine Memory

/-- An `io_buf`. -/
structure BufNode where
  data : ℕ → UInt8
  next : Option ℕ
  capacity : ℕ
  length : ℕ
  head : ℕ

namespace BufNode

/-- `io_buf::io_buf`; the block is taken to hold zeros, none of which is read. -/
def new (cap : ℕ) : BufNode := ⟨fun _ => 0, none, cap, 0, 0⟩

/-- `io_buf::clear`. -/
def clear (b : BufNode) : BufNode := { b with head := 0, length := 0 }

/-- `io_buf::adjust`. -/
def adjust (b : BufNode) : BufNode :=
  if b.head > 0 then
    { b with
      data := if b.length > 0 then store b.data 0 (load b.data b.head b.length) else b.data
      head := 0 }
  else b

/-- `io_buf::copy`. -/
def copy (b other : BufNode) : BufNode :=
  { b with data := store b.data 0 (load other.data other.head other.length),
           length := other.length, head := 0 }

/-- `io_buf::pop`. -/
def pop (b : BufNode) (len : ℕ) : BufNode :=
  { b with head := b.head + len, length := b.length - len }

/-- The bytes put at `m_data + m_length`, and counted. -/
def append (b : BufNode) (l : List UInt8) : BufNode :=
  { b with data := store b.data b.length l, length := b.length + l.length }

/-- The buffer as a value of the size `m`. -/
def value (b : BufNode) (m : MemCap) : IoBuf := ⟨b.data, m, b.length, b.head⟩

/-- The buffer is as it should be on the free list of the class `c`. -/
structure IsFree (b : BufNode) (c : ℕ) : Prop where
  capacity_eq : b.capacity = c
  length_eq : b.length = 0
  head_eq : b.head = 0

@[simp] theorem capacity_clear (b : BufNode) : b.clear.capacity = b.capacity := rfl

@[simp] theorem capacity_copy (b other : BufNode) : (b.copy other).capacity = b.capacity := rfl

@[simp] theorem capacity_pop (b : BufNode) (len : ℕ) : (b.pop len).capacity = b.capacity := rfl

@[simp] theorem capacity_append (b : BufNode) (l : List UInt8) :
    (b.append l).capacity = b.capacity := rfl

@[simp] theorem capacity_adjust (b : BufNode) : b.adjust.capacity = b.capacity := by
  rw [adjust]; split_ifs <;> rfl

theorem value_copy (b other : BufNode) (m m' : MemCap) :
    (b.copy other).value m = (b.value m).copy (other.value m') := rfl

@[simp] theorem value_pop (b : BufNode) (len : ℕ) (m : MemCap) :
    (b.pop len).value m = (b.value m).pop len := rfl

@[simp] theorem value_append (b : BufNode) (l : List UInt8) (m : MemCap) :
    (b.append l).value m = (b.value m).append l := rfl

@[simp] theorem value_adjust (b : BufNode) (m : MemCap) :
    b.adjust.value m = (b.value m).adjust := by
  by_cases h : b.head > 0
  · have h' : (b.value m).head > 0 := h
    rw [adjust, IoBuf.adjust, if_pos h, if_pos h']
    rfl
  · have h' : ¬(b.value m).head > 0 := h
    rw [adjust, IoBuf.adjust, if_neg h, if_neg h']

end BufNode

/-- How a call on the buffers in memory can end the process. -/
inductive HeapHalt
  | halt (h : Halt)
  /-- The `assert` of `revert`: the buffer's capacity is not a class of the pool. -/
  | notInPool
  deriving DecidableEq

/-- The memory and `buf_pool`: the nodes at the addresses below `created`, the first node of each
free list (`m_pool`; the outer `none` is a capacity that is not in the map), and `m_total_mem`. -/
structure BufHeap where
  nodes : ℕ → BufNode
  created : ℕ
  pool : ℕ → Option (Option ℕ)
  totalMem : ℕ

namespace BufHeap

/-! ## The pool -/

/-- `m_next`. -/
def next (h : BufHeap) (a : ℕ) : Option ℕ := (h.nodes a).next

/-- The node at `a` is changed. -/
def modify (h : BufHeap) (a : ℕ) (f : BufNode → BufNode) : BufHeap :=
  { h with nodes := Function.update h.nodes a (f (h.nodes a)) }

/-- `a->m_next = next`. -/
def setNext (h : BufHeap) (a : ℕ) (next : Option ℕ) : BufHeap :=
  h.modify a fun b => { b with next }

/-- `m_pool[index] = first`. -/
def setPool (h : BufHeap) (index : ℕ) (first : Option ℕ) : BufHeap :=
  { h with pool := Function.update h.pool index (some first) }

/-- `new io_buf(cap)`. -/
def newIoBuf (h : BufHeap) (cap : ℕ) : ℕ × BufHeap :=
  (h.created,
    { h with nodes := Function.update h.nodes h.created (.new cap), created := h.created + 1 })

/-- A loop of the constructor: `count` new nodes are linked one after the other behind `prev`. -/
def extend (cap : ℕ) : ℕ → ℕ → BufHeap → BufHeap
  | 0, _, h => h
  | count + 1, prev, h =>
    let (node, h) := h.newIoBuf cap
    extend cap count node (h.setNext prev (some node))

/-- What the constructor does for one class. -/
def initList (c : MemCap) (count mem : ℕ) (h : BufHeap) : BufHeap :=
  let (prev, h) := h.newIoBuf c.size
  let h := extend c.size count prev (h.setPool c.size (some prev))
  { h with totalMem := h.totalMem + mem }

/-- Before the constructor. -/
def empty : BufHeap := ⟨fun _ => .new 0, 0, fun _ => none, 0⟩

/-- `buf_pool::buf_pool`. Twenty blocks of 8M are made and ten are counted. -/
def new : BufHeap :=
  empty
    |> initList .m4K 5000 (5000 * 4)
    |> initList .m16K 1000 (1000 * 16)
    |> initList .m64K 500 (500 * 64)
    |> initList .m256K 200 (200 * 256)
    |> initList .m1M 50 (50 * 1024)
    |> initList .m4M 20 (20 * 4096)
    |> initList .m8M 20 (10 * 8192)

/-- `buf_pool::alloc_buf`. -/
def allocBuf (N : ℤ) (h : BufHeap) : Except HeapHalt (Option ℕ × BufHeap) :=
  match BufPool.index N with
  | none => .ok (none, h)
  | some index =>
    let retBuf := (h.pool index.size).join
    match retBuf with
    | none =>
      if h.totalMem + index.size / 1024 > extraMemLimit then .error (.halt .exit)
      else
        let (newBuf, h) := h.newIoBuf index.size
        if retBuf.isNone then .error (.halt .exit)
        else .ok (some newBuf, { h with totalMem := h.totalMem + index.size / 1024 })
    | some a => .ok (some a, (h.setPool index.size (h.next a)).setNext a none)

/-- `buf_pool::revert`. -/
def revert (buf : ℕ) (h : BufHeap) : Except HeapHalt BufHeap :=
  let h := h.modify buf .clear
  let index := (h.nodes buf).capacity
  match h.pool index with
  | none => .error .notInPool
  | some first => .ok ((h.setNext buf first).setPool index (some buf))

/-! ## The operations of a connection's buffer -/

/-- The conversion of a `size_t`, or of a sum or difference of such before it is reduced, to
`int`. -/
def toInt (n : ℤ) : ℤ := n.bmod (2 ^ 32)

/-- `reactor_buf::pop`. -/
def pop (buf : Option ℕ) (len : ℕ) (h : BufHeap) : Except HeapHalt (Option ℕ × BufHeap) :=
  match buf with
  | none => .error (.halt .abort)
  | some a =>
    if len ≤ toInt (h.nodes a).length then
      let h := h.modify a fun b => b.pop len
      if (h.nodes a).length > 0 then .ok (some a, h)
      else do
        let h ← h.revert a
        .ok (none, h)
    else .error (.halt .abort)

/-- `reactor_buf::clear`, and with it the destructor. -/
def clear (buf : Option ℕ) (h : BufHeap) : Except HeapHalt (Option ℕ × BufHeap) :=
  match buf with
  | none => .ok (none, h)
  | some a => do
    let h ← h.revert a
    .ok (none, h)

/-- The first step of `read_data` and of `write_data`. -/
def ensure (buf : Option ℕ) (n : ℕ) (h : BufHeap) : Except HeapHalt (Option ℕ × BufHeap) :=
  match buf with
  | some a => .ok (some a, h)
  | none => h.allocBuf n

/-- The second step of `read_data` and of `write_data`. -/
def grow (a n : ℕ) (h : BufHeap) : Except HeapHalt (Option ℕ × BufHeap) :=
  if toInt ((h.nodes a).capacity - (h.nodes a).length) < n then do
    let (newBuf, h) ← h.allocBuf (toInt ((h.nodes a).capacity + n))
    match newBuf with
    | none => .ok (none, h)
    | some newBuf =>
      if (h.nodes a).capacity < (h.nodes a).head + (h.nodes a).length then
        .error (.halt .overread)
      else
        let h := h.modify newBuf fun b => b.copy (h.nodes a)
        let h ← h.revert a
        .ok (some newBuf, h)
  else .ok (some a, h)

/-- `input_buf::read_data`: the value returned, `m_buf`, and the memory. -/
def readData (buf : Option ℕ) (k : KernelRead) (h : BufHeap) :
    Except HeapHalt (ℤ × Option ℕ × BufHeap) :=
  match k.fionread with
  | none => .ok (-1, buf, h)
  | some needRead => do
    let (buf, h) ← ensure buf needRead h
    match buf with
    | none => .ok (-1, none, h)
    | some a =>
      if (h.nodes a).head ≠ 0 then .error (.halt .abort)
      else
        let (newBuf, h) ← grow a needRead h
        match newBuf with
        | none => .ok (-1, some a, h)
        | some a =>
          match ReactorBuf.readRetry (if needRead = 0 then MemCap.m4K.size else needRead)
            k.reads with
          | none => .ok (-1, some a, h)
          | some l =>
            if (h.nodes a).capacity < (h.nodes a).length + l.length then
              .error (.halt .undefined)
            else if l.length > 0 then
              if needRead ≠ 0 ∧ l.length ≠ needRead then .error (.halt .abort)
              else .ok (l.length, some a, h.modify a fun b => b.append l)
            else .ok (0, some a, h)

/-- `input_buf::adjust`. -/
def adjust (buf : Option ℕ) (h : BufHeap) : BufHeap :=
  match buf with
  | none => h
  | some a => h.modify a .adjust

/-- `output_buf::write_data`: the value returned, `m_buf`, and the memory. -/
def writeData (buf : Option ℕ) (data : List UInt8) (h : BufHeap) :
    Except HeapHalt (ℤ × Option ℕ × BufHeap) := do
  let (buf, h) ← ensure buf data.length h
  match buf with
  | none => .ok (-1, none, h)
  | some a =>
    let (newBuf, h) ← grow a data.length h
    match newBuf with
    | none => .ok (-1, some a, h)
    | some a => .ok (data.length, some a, h.modify a fun b => b.append data)

/-- `write` of the valid bytes of the buffer `a`, retried while interrupted, and what `write2fd`
does with the answer. -/
def writeRetry (a : ℕ) (h : BufHeap) : List WriteAnswer → ℤ × BufHeap
  | [] => (0, h)
  | .interrupted :: rest => writeRetry a h rest
  | .wouldBlock :: _ => (0, h)
  | .failed :: _ => (-1, h)
  | .accepted k :: _ =>
    let hasWrite := min (k + 1) (h.nodes a).length
    (hasWrite,
      if hasWrite > 0 then (h.modify a fun b => b.pop hasWrite).modify a .adjust else h)

/-- `output_buf::write2fd`. -/
def write2fd (buf : Option ℕ) (answers : List WriteAnswer) (h : BufHeap) :
    Except HeapHalt (ℤ × BufHeap) :=
  match buf with
  | none => .error (.halt .abort)
  | some a =>
    if (h.nodes a).head = 0 then .ok (writeRetry a h answers) else .error (.halt .abort)

end BufHeap

end Lars.Reactor
