import Mathlib.Data.Nat.Notation

/-!
# The protocol of the programs

What `base/proto/lars.proto` declares: the ids of the messages and the requests. The responses with
routes are `Dns.GetRouteResponse`, in the order of a hash set.

On the wire a message is its fields in the order of their numbers, those with the value 0 left out.
-/

namespace Lars

/-- `lars::MessageId`. -/
inductive MessageId
  | unknow
  | getRouteRequest
  | getRouteResponse
  | reportStatusRequest
  | getHostRequest
  | getHostResponse
  deriving DecidableEq

/-- The number of a message id. -/
def MessageId.toInt : MessageId → Int32
  | unknow => 0
  | getRouteRequest => 1
  | getRouteResponse => 2
  | reportStatusRequest => 3
  | getHostRequest => 4
  | getHostResponse => 5

/-- `lars::GetRouteRequest`. -/
structure GetRouteRequest where
  modid : Int32
  cmdid : Int32
  deriving DecidableEq

/-- `lars::GetHostRequest`. -/
structure GetHostRequest where
  seq : UInt32 := 0
  modid : Int32
  cmdid : Int32
  deriving DecidableEq

/-- `lars::HostCallResult`. -/
structure HostCallResult where
  ip : Int32
  port : Int32
  succ : UInt32
  err : UInt32
  overload : Bool
  deriving DecidableEq

/-- `lars::ReportStatusRequest`. -/
structure ReportStatusRequest where
  modid : Int32
  cmdid : Int32
  caller : Int32
  results : List HostCallResult
  ts : UInt32
  deriving DecidableEq

/-! ## The wire format -/

/-- A number in at most `k` groups of seven bits, lowest first; all bytes but the last have the high
bit set. -/
def varint : ℕ → ℕ → List UInt8
  | 0, _ => []
  | k + 1, n => if n < 128 then [n.toUInt8] else (n % 128 + 128).toUInt8 :: varint k (n / 128)

/-- A field with a value that fits 64 bits. -/
def varintField (number : UInt8) (value : UInt64) : List UInt8 :=
  if value = 0 then [] else number * 8 :: varint 10 value.toNat

/-- `GetHostRequest::SerializeAsString`. -/
def GetHostRequest.serialize (req : GetHostRequest) : List UInt8 :=
  varintField 1 req.seq.toUInt64 ++ varintField 2 req.modid.toInt64.toUInt64 ++
    varintField 3 req.cmdid.toInt64.toUInt64

theorem length_varint_le (k n : ℕ) : (varint k n).length ≤ k := by
  induction k generalizing n with
  | zero => exact Nat.le_refl 0
  | succ k ih =>
    rw [varint]
    split
    · exact Nat.succ_le_succ (Nat.zero_le k)
    · exact Nat.succ_le_succ (ih (n / 128))

theorem length_varintField_le (number : UInt8) (value : UInt64) :
    (varintField number value).length ≤ 11 := by
  unfold varintField
  split
  · exact Nat.zero_le 11
  · exact Nat.succ_le_succ (length_varint_le 10 value.toNat)

/-- A request is three fields at most. -/
theorem GetHostRequest.length_serialize_le (req : GetHostRequest) : req.serialize.length ≤ 33 := by
  have h₁ := length_varintField_le 1 req.seq.toUInt64
  have h₂ := length_varintField_le 2 req.modid.toInt64.toUInt64
  have h₃ := length_varintField_le 3 req.cmdid.toInt64.toUInt64
  simp only [serialize, List.length_append]
  omega

end Lars
