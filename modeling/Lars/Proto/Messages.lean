import Lars.Api.GetHost
import Lars.Proto.Base128

/-!
# The messages on the wire

The code generated from `lars.proto` (`base/proto/lars.pb.cc`) writes a message field by field
(`_InternalSerialize`), says how long it will be (`ByteSizeLong`), reads it in a loop over tags
(`_InternalParse`), and merges two messages of a kind (`MergeFrom`). A field with the value 0 is
neither written nor merged.

The code of each message is a `Message` of the wire format; `MessageType.code` has all seven.

* What is written is as long as it was said to be, and is read again with everything in it
  (`roundTrip`).
* The bytes of two messages, one after the other, are read as the merged message (`parse_merged`).
* The order of the fields, and fields that are unknown, do not matter (`parse_reordered`).
-/

namespace Lars

open WireFormat Dns

/-- `lars::GetRouteResponse`, the hosts in the order in which they were added. -/
structure Proto.GetRouteResponse where
  modid : Int32
  cmdid : Int32
  host : List HostInfo
  deriving DecidableEq

/-- The response without the order of the hosts. -/
def Proto.GetRouteResponse.toDns (resp : Proto.GetRouteResponse) : Dns.GetRouteResponse :=
  ⟨resp.modid, resp.cmdid, resp.host⟩

/-- What the generated code uses of the protobuf library. -/
abbrev ProtobufRuntime := Runtime (varint 10)

/-! ## Fields -/

theorem varint_of_lt {n : ℕ} (hn : n < 128) (k : ℕ) : varint (k + 1) n = [n.toUInt8] := by
  rw [varint, if_pos hn]

theorem varint_tag {tag : UInt8} (htag : tag < 128) : varint 10 tag.toNat = [tag] := by
  rw [varint_of_lt (UInt8.lt_iff_toNat_lt.mp htag)]
  exact congrArg (fun b => [b]) (UInt8.ofNat_toNat)

theorem length_varint_le_maxSize (n : ℕ) : (varint 10 n).length ≤ maxSize :=
  Nat.le_trans (length_varint_le 10 n) (by decide)

theorem length_message_le {bytes : List UInt8} (h : bytes.length + slopBytes ≤ maxSize) :
    (varint 10 bytes.length ++ bytes).length ≤ maxSize := by
  have hlen := length_varint_le 10 bytes.length
  rw [List.length_append]
  unfold slopBytes at h
  omega

/-- A field of type `int32`. -/
def int32Field (R : ProtobufRuntime) {M : Type} (number : UInt32) (tag : UInt8)
    (set : M → Int32 → M) : WireField M :=
  varint64Field R number tag fun m n => set m (toInt n)

/-- A field of type `uint32`. -/
def uint32Field (R : ProtobufRuntime) {M : Type} (number : UInt32) (tag : UInt8)
    (set : M → UInt32 → M) : WireField M :=
  varint32Field R number tag set

/-- A field of type `bool`. -/
def boolField (R : ProtobufRuntime) {M : Type} (number : UInt32) (tag : UInt8)
    (set : M → Bool → M) : WireField M :=
  varint64Field R number tag fun m n => set m (n ≠ 0)

/-- The number written for a `bool`. -/
def ofBool (b : Bool) : UInt64 := if b then 1 else 0

/-- The item of a field with a number. -/
def varintItem (tag : UInt8) (value : UInt64) : List Item :=
  if value = 0 then [] else [⟨tag.toUInt32, varint 10 value.toNat⟩]

/-- The item of a field with a message, `bytes` long. -/
def messageItem (tag : UInt8) (bytes : List UInt8) : Item :=
  ⟨tag.toUInt32, varint 10 bytes.length ++ bytes⟩

/-- The bytes that a field with a number adds to a message. -/
def varintFieldSize (value : UInt64) : ℕ :=
  if value = 0 then 0 else 1 + (varint 10 value.toNat).length

/-- The bytes that a field with a message of `size` bytes adds. -/
def messageFieldSize (size : ℕ) : ℕ := 1 + ((varint 10 size).length + size)

theorem flatMap_varintItem (number : UInt8) {tag : UInt8} (htag : tag < 128)
    (h : tag = number * 8) (value : UInt64) :
    (varintItem tag value).flatMap (Item.bytes (varint 10)) = varintField number value := by
  unfold varintItem varintField
  split_ifs
  · rfl
  · rw [List.flatMap_singleton, Item.bytes, UInt8.toNat_toUInt32, varint_tag htag, h]
    rfl

theorem bytes_messageItem (number : UInt8) {tag : UInt8} (htag : tag < 128)
    (h : tag = number * 8 + 2) (bytes : List UInt8) :
    (messageItem tag bytes).bytes (varint 10) = Api.messageField number bytes := by
  rw [messageItem, Item.bytes, UInt8.toNat_toUInt32, varint_tag htag, h]
  rfl

theorem length_varintField (number : UInt8) (value : UInt64) :
    (varintField number value).length = varintFieldSize value := by
  unfold varintField varintFieldSize
  split_ifs with h
  · rfl
  · rw [List.length_cons, Nat.add_comm]

theorem length_messageField (number : UInt8) (bytes : List UInt8) :
    (Api.messageField number bytes).length = messageFieldSize bytes.length := by
  rw [Api.messageField, messageFieldSize, List.length_cons, List.length_append, Nat.add_comm]

section Repeated

variable {N : Type} {serialize : N → List UInt8}

theorem flatMap_messageItem (number : UInt8) {tag : UInt8} (htag : tag < 128)
    (h : tag = number * 8 + 2) (ns : List N) :
    (ns.map fun n => messageItem tag (serialize n)).flatMap (Item.bytes (varint 10)) =
      ns.flatMap fun n => Api.messageField number (serialize n) := by
  rw [List.flatMap_map]
  exact congrArg (List.flatMap · ns)
    (funext fun n => bytes_messageItem number htag h (serialize n))

theorem length_flatMap_messageField (number : UInt8) {byteSizeLong : N → ℕ}
    (h : ∀ n, byteSizeLong n = (serialize n).length) (ns : List N) :
    (ns.flatMap fun n => Api.messageField number (serialize n)).length =
      (ns.map fun n => messageFieldSize (byteSizeLong n)).sum := by
  rw [List.length_flatMap]
  exact congrArg (fun f => (ns.map f).sum)
    (funext fun n => by rw [length_messageField, h])

end Repeated

theorem ofInt_eq_zero_iff {i : Int32} : ofInt i = 0 ↔ i = 0 := by
  refine ⟨fun h => ?_, fun h => by rw [h]; rfl⟩
  rw [← toInt_ofInt i, h]
  rfl

theorem toUInt64_eq_zero_iff {n : UInt32} : n.toUInt64 = 0 ↔ n = 0 := by
  refine ⟨fun h => ?_, fun h => by rw [h]; rfl⟩
  rw [← UInt32.toUInt32_toUInt64 n, h]
  rfl

theorem ite_ne_self {α : Type} [DecidableEq α] (v zero : α) :
    (if v ≠ zero then v else zero) = v := by
  rw [ite_not]
  split_ifs with h
  · exact h.symm
  · rfl

section Fields

variable {R : ProtobufRuntime} {M : Type} {fields : List (WireField M)}

/-- A field with a value of some type, which is left out when it is `zero`. -/
theorem writes_scalar {α : Type} {tag : UInt8} {wire : α → UInt64} {zero : α} [DecidableEq α]
    (hzero : ∀ v, wire v = 0 ↔ v = zero) {get : M → α} {set : M → α → M}
    (hset : ∀ m, set m (get m) = m) {v : α}
    (hitem : Writes R fields [⟨tag.toUInt32, varint 10 (wire v).toNat⟩] fun m => set m v) :
    Writes R fields (varintItem tag (wire v)) fun m => set m (if v ≠ zero then v else get m) := by
  unfold varintItem
  by_cases hv : v = zero
  · rw [if_pos ((hzero v).mpr hv)]
    refine Writes.nil.congr fun m => ?_
    rw [if_neg (not_not_intro hv), hset]
    rfl
  · rw [if_neg (mt (hzero v).mp hv)]
    exact hitem.congr fun m => by rw [if_pos hv]

variable (hnodup : (fields.map WireField.number).Nodup) {number : UInt32} {tag : UInt8}
  (htag : tag < 128) (hnumber : tag.toUInt32 >>> 3 = number)

include hnodup htag hnumber

theorem writes_int32 (get : M → Int32) {set : M → Int32 → M}
    (hf : int32Field R number tag set ∈ fields) (hset : ∀ m, set m (get m) = m) (v : Int32) :
    Writes R fields (varintItem tag (ofInt v)) fun m => set m (if v ≠ 0 then v else get m) := by
  refine writes_scalar (fun v => ofInt_eq_zero_iff) hset ?_
  refine (writes_varint64 (expects_of_mem hnodup hf htag hnumber) (varint_tag htag)
    (length_varint_le_maxSize _)).congr fun m => ?_
  rw [toInt_ofInt]

theorem writes_uint32 (get : M → UInt32) {set : M → UInt32 → M}
    (hf : uint32Field R number tag set ∈ fields) (hset : ∀ m, set m (get m) = m) (v : UInt32) :
    Writes R fields (varintItem tag v.toUInt64) fun m => set m (if v ≠ 0 then v else get m) := by
  refine writes_scalar (fun v => toUInt64_eq_zero_iff) hset ?_
  refine (writes_varint32 (expects_of_mem hnodup hf htag hnumber) (varint_tag htag)
    (length_varint_le_maxSize _)).congr fun m => ?_
  rw [UInt32.toUInt32_toUInt64]

theorem writes_bool (get : M → Bool) {set : M → Bool → M}
    (hf : boolField R number tag set ∈ fields) (hset : ∀ m, set m (get m) = m) (v : Bool) :
    Writes R fields (varintItem tag (ofBool v)) fun m =>
      set m (if v ≠ false then v else get m) := by
  refine writes_scalar (fun v => by cases v <;> decide) hset ?_
  refine (writes_varint64 (expects_of_mem hnodup hf htag hnumber) (varint_tag htag)
    (length_varint_le_maxSize _)).congr fun m => ?_
  cases v <;> rfl

/-- A field with a message. -/
theorem writes_submessage {N : Type} {C : Message R N} {mutable : M → N} {set : M → N → M}
    (hf : WireFormat.messageField R number tag (internalParse R C.fields) mutable set ∈ fields)
    {n : N} (hsize : (C.serialize n).length + slopBytes ≤ maxSize) :
    Writes R fields [messageItem tag (C.serialize n)] fun m =>
      set m (C.mergeFrom (mutable m) n) :=
  writes_message (expects_of_mem hnodup hf htag hnumber) (varint_tag htag)
    (Message.readsAs_serialize n) hsize (length_message_le hsize)

/-- A field with any number of messages. -/
theorem writes_messages {N : Type} {C : Message R N} {add : M → N → M}
    (hf : repeatedField R number tag (internalParse R C.fields) C.clear add ∈ fields)
    (hsize : ∀ n, (C.serialize n).length + slopBytes ≤ maxSize) (ns : List N) :
    Writes R fields (ns.map fun n => messageItem tag (C.serialize n)) fun m => ns.foldl add m := by
  induction ns with
  | nil => exact .nil
  | cons n ns ih =>
    have hbody := Message.readsAs_serialize (C := C) n
    have hone := writes_repeated (expects_of_mem hnodup hf htag hnumber) (varint_tag htag) hbody
      (hsize n) (length_message_le (hsize n))
    refine (hone.append ih).congr fun m => ?_
    rw [Function.comp, C.mergeFrom_clear]
    rfl

end Fields

/-! ## HostInfo -/

namespace Dns.HostInfo

/-- `HostInfo::_InternalSerialize`. -/
def serialize (m : HostInfo) : List UInt8 :=
  varintField 1 (ofInt m.ip) ++ varintField 2 (ofInt m.port)

/-- `HostInfo::ByteSizeLong`. -/
def byteSizeLong (m : HostInfo) : ℕ := varintFieldSize (ofInt m.ip) + varintFieldSize (ofInt m.port)

theorem byteSizeLong_eq (m : HostInfo) : m.byteSizeLong = m.serialize.length := by
  rw [serialize, List.length_append, length_varintField, length_varintField, byteSizeLong]

/-- `HostInfo::MergeFrom`. -/
def mergeFrom (m source : HostInfo) : HostInfo where
  ip := if source.ip ≠ 0 then source.ip else m.ip
  port := if source.port ≠ 0 then source.port else m.port

/-- The cases of `HostInfo::_InternalParse`. -/
def fields (R : ProtobufRuntime) : List (WireField HostInfo) :=
  [int32Field R 1 8 fun m ip => { m with ip }, int32Field R 2 16 fun m port => { m with port }]

/-- The items written. -/
def items (m : HostInfo) : List Item := varintItem 8 (ofInt m.ip) ++ varintItem 16 (ofInt m.port)

theorem writes (R : ProtobufRuntime) (m : HostInfo) :
    Writes R (fields R) m.items fun m' => m'.mergeFrom m := by
  have hnodup : ((fields R).map WireField.number).Nodup :=
    (by decide : ([1, 2] : List UInt32).Nodup)
  have hip := writes_int32 hnodup (by decide) (by decide) ip (.head _) (fun _ => rfl) m.ip
  have hport := writes_int32 hnodup (by decide) (by decide) port (.tail _ (.head _)) (fun _ => rfl)
    m.port
  exact hip.append hport

/-- The code for a host. -/
def code (R : ProtobufRuntime) : Message R HostInfo where
  clear := ⟨0, 0⟩
  fields := fields R
  serialize
  byteSizeLong
  mergeFrom
  items
  serialize_eq m := by
    rw [items, List.flatMap_append, flatMap_varintItem 1 (by decide) (by decide),
      flatMap_varintItem 2 (by decide) (by decide), serialize]
  byteSizeLong_eq := byteSizeLong_eq
  writes := writes R
  mergeFrom_clear m := by simp only [mergeFrom, ite_ne_self]
  commute := by
    simp only [fields, List.pairwise_cons, List.forall_mem_cons, List.not_mem_nil, false_imp_iff,
      implies_true, List.Pairwise.nil, and_true]
    exact fun _ _ _ => rfl

theorem length_serialize_le (m : HostInfo) : m.serialize.length + slopBytes ≤ maxSize := by
  have hip := length_varintField_le 1 (ofInt m.ip)
  have hport := length_varintField_le 2 (ofInt m.port)
  simp only [serialize, List.length_append, slopBytes, maxSize]
  omega

end Dns.HostInfo

/-! ## Requests -/

namespace GetRouteRequest

/-- `GetRouteRequest::_InternalSerialize`. -/
def serialize (m : GetRouteRequest) : List UInt8 :=
  varintField 1 (ofInt m.modid) ++ varintField 2 (ofInt m.cmdid)

/-- `GetRouteRequest::ByteSizeLong`. -/
def byteSizeLong (m : GetRouteRequest) : ℕ :=
  varintFieldSize (ofInt m.modid) + varintFieldSize (ofInt m.cmdid)

/-- `GetRouteRequest::MergeFrom`. -/
def mergeFrom (m source : GetRouteRequest) : GetRouteRequest where
  modid := if source.modid ≠ 0 then source.modid else m.modid
  cmdid := if source.cmdid ≠ 0 then source.cmdid else m.cmdid

/-- The cases of `GetRouteRequest::_InternalParse`. -/
def fields (R : ProtobufRuntime) : List (WireField GetRouteRequest) :=
  [int32Field R 1 8 fun m modid => { m with modid },
    int32Field R 2 16 fun m cmdid => { m with cmdid }]

/-- The items written. -/
def items (m : GetRouteRequest) : List Item :=
  varintItem 8 (ofInt m.modid) ++ varintItem 16 (ofInt m.cmdid)

theorem writes (R : ProtobufRuntime) (m : GetRouteRequest) :
    Writes R (fields R) m.items fun m' => m'.mergeFrom m := by
  have hnodup : ((fields R).map WireField.number).Nodup :=
    (by decide : ([1, 2] : List UInt32).Nodup)
  have hmodid := writes_int32 hnodup (by decide) (by decide) modid (.head _) (fun _ => rfl) m.modid
  have hcmdid := writes_int32 hnodup (by decide) (by decide) cmdid (.tail _ (.head _))
    (fun _ => rfl) m.cmdid
  exact hmodid.append hcmdid

/-- The code for a request of routes. -/
def code (R : ProtobufRuntime) : Message R GetRouteRequest where
  clear := ⟨0, 0⟩
  fields := fields R
  serialize
  byteSizeLong
  mergeFrom
  items
  serialize_eq m := by
    rw [items, List.flatMap_append, flatMap_varintItem 1 (by decide) (by decide),
      flatMap_varintItem 2 (by decide) (by decide), serialize]
  byteSizeLong_eq m := by
    rw [serialize, List.length_append, length_varintField, length_varintField, byteSizeLong]
  writes := writes R
  mergeFrom_clear m := by simp only [mergeFrom, ite_ne_self]
  commute := by
    simp only [fields, List.pairwise_cons, List.forall_mem_cons, List.not_mem_nil, false_imp_iff,
      implies_true, List.Pairwise.nil, and_true]
    exact fun _ _ _ => rfl

end GetRouteRequest

namespace GetHostRequest

/-- `GetHostRequest::ByteSizeLong`. -/
def byteSizeLong (m : GetHostRequest) : ℕ :=
  varintFieldSize m.seq.toUInt64 + varintFieldSize (ofInt m.modid) +
    varintFieldSize (ofInt m.cmdid)

/-- `GetHostRequest::MergeFrom`. -/
def mergeFrom (m source : GetHostRequest) : GetHostRequest where
  seq := if source.seq ≠ 0 then source.seq else m.seq
  modid := if source.modid ≠ 0 then source.modid else m.modid
  cmdid := if source.cmdid ≠ 0 then source.cmdid else m.cmdid

/-- The cases of `GetHostRequest::_InternalParse`. -/
def fields (R : ProtobufRuntime) : List (WireField GetHostRequest) :=
  [uint32Field R 1 8 fun m seq => { m with seq }, int32Field R 2 16 fun m modid => { m with modid },
    int32Field R 3 24 fun m cmdid => { m with cmdid }]

/-- The items written. -/
def items (m : GetHostRequest) : List Item :=
  varintItem 8 m.seq.toUInt64 ++ varintItem 16 (ofInt m.modid) ++ varintItem 24 (ofInt m.cmdid)

theorem writes (R : ProtobufRuntime) (m : GetHostRequest) :
    Writes R (fields R) m.items fun m' => m'.mergeFrom m := by
  have hnodup : ((fields R).map WireField.number).Nodup :=
    (by decide : ([1, 2, 3] : List UInt32).Nodup)
  have hseq := writes_uint32 hnodup (by decide) (by decide) seq (.head _) (fun _ => rfl) m.seq
  have hmodid := writes_int32 hnodup (by decide) (by decide) modid (.tail _ (.head _))
    (fun _ => rfl) m.modid
  have hcmdid := writes_int32 hnodup (by decide) (by decide) cmdid (.tail _ (.tail _ (.head _)))
    (fun _ => rfl) m.cmdid
  exact (hseq.append hmodid).append hcmdid

/-- The code for a request of a host. -/
def code (R : ProtobufRuntime) : Message R GetHostRequest where
  clear := ⟨0, 0, 0⟩
  fields := fields R
  serialize
  byteSizeLong
  mergeFrom
  items
  serialize_eq m := by
    simp only [items, List.flatMap_append]
    rw [flatMap_varintItem 1 (by decide) (by decide), flatMap_varintItem 2 (by decide) (by decide),
      flatMap_varintItem 3 (by decide) (by decide)]
    rfl
  byteSizeLong_eq m := by
    simp only [serialize, List.length_append, length_varintField]
    rfl
  writes := writes R
  mergeFrom_clear m := by simp only [mergeFrom, ite_ne_self]
  commute := by
    simp only [fields, List.pairwise_cons, List.forall_mem_cons, List.not_mem_nil, false_imp_iff,
      implies_true, List.Pairwise.nil, and_true]
    exact ⟨⟨fun _ _ _ => rfl, fun _ _ _ => rfl⟩, fun _ _ _ => rfl⟩

end GetHostRequest

/-! ## Reports -/

namespace HostCallResult

/-- `HostCallResult::_InternalSerialize`. -/
def serialize (m : HostCallResult) : List UInt8 :=
  varintField 1 (ofInt m.ip) ++ varintField 2 (ofInt m.port) ++ varintField 3 m.succ.toUInt64 ++
    varintField 4 m.err.toUInt64 ++ varintField 5 (ofBool m.overload)

/-- `HostCallResult::ByteSizeLong`. -/
def byteSizeLong (m : HostCallResult) : ℕ :=
  varintFieldSize (ofInt m.ip) + varintFieldSize (ofInt m.port) +
    varintFieldSize m.succ.toUInt64 + varintFieldSize m.err.toUInt64 +
    -- `1 + 1` for a `bool` that is set
    if m.overload then 1 + 1 else 0

theorem byteSizeLong_eq (m : HostCallResult) : m.byteSizeLong = m.serialize.length := by
  have hoverload : (if m.overload then 1 + 1 else 0) = varintFieldSize (ofBool m.overload) := by
    cases m.overload <;> rfl
  rw [byteSizeLong, hoverload]
  simp only [serialize, List.length_append, length_varintField]

/-- `HostCallResult::MergeFrom`. -/
def mergeFrom (m source : HostCallResult) : HostCallResult where
  ip := if source.ip ≠ 0 then source.ip else m.ip
  port := if source.port ≠ 0 then source.port else m.port
  succ := if source.succ ≠ 0 then source.succ else m.succ
  err := if source.err ≠ 0 then source.err else m.err
  overload := if source.overload ≠ false then source.overload else m.overload

/-- The cases of `HostCallResult::_InternalParse`. -/
def fields (R : ProtobufRuntime) : List (WireField HostCallResult) :=
  [int32Field R 1 8 fun m ip => { m with ip }, int32Field R 2 16 fun m port => { m with port },
    uint32Field R 3 24 fun m succ => { m with succ },
    uint32Field R 4 32 fun m err => { m with err },
    boolField R 5 40 fun m overload => { m with overload }]

/-- The items written. -/
def items (m : HostCallResult) : List Item :=
  varintItem 8 (ofInt m.ip) ++ varintItem 16 (ofInt m.port) ++ varintItem 24 m.succ.toUInt64 ++
    varintItem 32 m.err.toUInt64 ++ varintItem 40 (ofBool m.overload)

theorem writes (R : ProtobufRuntime) (m : HostCallResult) :
    Writes R (fields R) m.items fun m' => m'.mergeFrom m := by
  have hnodup : ((fields R).map WireField.number).Nodup :=
    (by decide : ([1, 2, 3, 4, 5] : List UInt32).Nodup)
  have hip := writes_int32 hnodup (by decide) (by decide) ip (.head _) (fun _ => rfl) m.ip
  have hport := writes_int32 hnodup (by decide) (by decide) port (.tail _ (.head _)) (fun _ => rfl)
    m.port
  have hsucc := writes_uint32 hnodup (by decide) (by decide) succ (.tail _ (.tail _ (.head _)))
    (fun _ => rfl) m.succ
  have herr := writes_uint32 hnodup (by decide) (by decide) err
    (.tail _ (.tail _ (.tail _ (.head _)))) (fun _ => rfl) m.err
  have hoverload := writes_bool hnodup (by decide) (by decide) overload
    (.tail _ (.tail _ (.tail _ (.tail _ (.head _))))) (fun _ => rfl) m.overload
  exact (((hip.append hport).append hsucc).append herr).append hoverload

/-- The code for the result of a call. -/
def code (R : ProtobufRuntime) : Message R HostCallResult where
  clear := ⟨0, 0, 0, 0, false⟩
  fields := fields R
  serialize
  byteSizeLong
  mergeFrom
  items
  serialize_eq m := by
    simp only [items, List.flatMap_append]
    rw [flatMap_varintItem 1 (by decide) (by decide), flatMap_varintItem 2 (by decide) (by decide),
      flatMap_varintItem 3 (by decide) (by decide), flatMap_varintItem 4 (by decide) (by decide),
      flatMap_varintItem 5 (by decide) (by decide), serialize]
  byteSizeLong_eq := byteSizeLong_eq
  writes := writes R
  mergeFrom_clear m := by simp only [mergeFrom, ite_ne_self]
  commute := by
    simp only [fields, List.pairwise_cons, List.forall_mem_cons, List.not_mem_nil, false_imp_iff,
      implies_true, List.Pairwise.nil, and_true]
    and_intros <;> exact fun _ _ _ => rfl

theorem length_serialize_le (m : HostCallResult) : m.serialize.length + slopBytes ≤ maxSize := by
  have hip := length_varintField_le 1 (ofInt m.ip)
  have hport := length_varintField_le 2 (ofInt m.port)
  have hsucc := length_varintField_le 3 m.succ.toUInt64
  have herr := length_varintField_le 4 m.err.toUInt64
  have hoverload := length_varintField_le 5 (ofBool m.overload)
  simp only [serialize, List.length_append, slopBytes, maxSize]
  omega

end HostCallResult

namespace ReportStatusRequest

/-- `ReportStatusRequest::_InternalSerialize`. -/
def serialize (m : ReportStatusRequest) : List UInt8 :=
  varintField 1 (ofInt m.modid) ++ varintField 2 (ofInt m.cmdid) ++
    varintField 3 (ofInt m.caller) ++
    (m.results.flatMap fun result => Api.messageField 4 result.serialize) ++
    varintField 5 m.ts.toUInt64

/-- `ReportStatusRequest::ByteSizeLong`. -/
def byteSizeLong (m : ReportStatusRequest) : ℕ :=
  (m.results.map fun result => messageFieldSize result.byteSizeLong).sum +
    varintFieldSize (ofInt m.modid) + varintFieldSize (ofInt m.cmdid) +
    varintFieldSize (ofInt m.caller) + varintFieldSize m.ts.toUInt64

/-- `ReportStatusRequest::MergeFrom`. -/
def mergeFrom (m source : ReportStatusRequest) : ReportStatusRequest where
  modid := if source.modid ≠ 0 then source.modid else m.modid
  cmdid := if source.cmdid ≠ 0 then source.cmdid else m.cmdid
  caller := if source.caller ≠ 0 then source.caller else m.caller
  results := m.results ++ source.results
  ts := if source.ts ≠ 0 then source.ts else m.ts

/-- The cases of `ReportStatusRequest::_InternalParse`. -/
def fields (R : ProtobufRuntime) : List (WireField ReportStatusRequest) :=
  [int32Field R 1 8 fun m modid => { m with modid },
    int32Field R 2 16 fun m cmdid => { m with cmdid },
    int32Field R 3 24 fun m caller => { m with caller },
    repeatedField R 4 34 (internalParse R (HostCallResult.fields R)) ⟨0, 0, 0, 0, false⟩
      fun m result => { m with results := m.results ++ [result] },
    uint32Field R 5 40 fun m ts => { m with ts }]

/-- The items written. -/
def items (m : ReportStatusRequest) : List Item :=
  varintItem 8 (ofInt m.modid) ++ varintItem 16 (ofInt m.cmdid) ++
    varintItem 24 (ofInt m.caller) ++
    (m.results.map fun result => messageItem 34 result.serialize) ++ varintItem 40 m.ts.toUInt64

theorem foldl_results (results : List HostCallResult) (m : ReportStatusRequest) :
    results.foldl (fun m result => { m with results := m.results ++ [result] }) m =
      { m with results := m.results ++ results } := by
  induction results generalizing m with
  | nil => rw [List.append_nil]; rfl
  | cons result results ih => rw [List.foldl_cons, ih, List.append_assoc]; rfl

theorem writes (R : ProtobufRuntime) (m : ReportStatusRequest) :
    Writes R (fields R) m.items fun m' => m'.mergeFrom m := by
  have hnodup : ((fields R).map WireField.number).Nodup :=
    (by decide : ([1, 2, 3, 4, 5] : List UInt32).Nodup)
  have hmodid := writes_int32 hnodup (by decide) (by decide) modid (.head _) (fun _ => rfl) m.modid
  have hcmdid := writes_int32 hnodup (by decide) (by decide) cmdid (.tail _ (.head _))
    (fun _ => rfl) m.cmdid
  have hcaller := writes_int32 hnodup (by decide) (by decide) caller (.tail _ (.tail _ (.head _)))
    (fun _ => rfl) m.caller
  have hresults := writes_messages hnodup (by decide) (by decide) (C := HostCallResult.code R)
    (.tail _ (.tail _ (.tail _ (.head _)))) HostCallResult.length_serialize_le m.results
  have hts := writes_uint32 hnodup (by decide) (by decide) ts
    (.tail _ (.tail _ (.tail _ (.tail _ (.head _))))) (fun _ => rfl) m.ts
  refine ((((hmodid.append hcmdid).append hcaller).append hresults).append hts).congr fun m' => ?_
  simp only [Function.comp, foldl_results]
  rfl

/-- The code for a report. -/
def code (R : ProtobufRuntime) : Message R ReportStatusRequest where
  clear := ⟨0, 0, 0, [], 0⟩
  fields := fields R
  serialize
  byteSizeLong
  mergeFrom
  items
  serialize_eq m := by
    simp only [items, List.flatMap_append]
    rw [flatMap_varintItem 1 (by decide) (by decide), flatMap_varintItem 2 (by decide) (by decide),
      flatMap_varintItem 3 (by decide) (by decide), flatMap_messageItem 4 (by decide) (by decide),
      flatMap_varintItem 5 (by decide) (by decide), serialize]
  byteSizeLong_eq m := by
    simp only [serialize, byteSizeLong, List.length_append, length_varintField,
      length_flatMap_messageField 4 HostCallResult.byteSizeLong_eq]
    omega
  writes := writes R
  mergeFrom_clear m := by simp only [mergeFrom, ite_ne_self, List.nil_append]
  commute := by
    simp only [fields, List.pairwise_cons, List.forall_mem_cons, List.not_mem_nil, false_imp_iff,
      implies_true, List.Pairwise.nil, and_true]
    and_intros <;> exact fun _ _ _ => rfl

end ReportStatusRequest

/-! ## Responses -/

namespace Proto.GetRouteResponse

/-- `GetRouteResponse::_InternalSerialize`. -/
def serialize (m : Proto.GetRouteResponse) : List UInt8 :=
  varintField 1 (ofInt m.modid) ++ varintField 2 (ofInt m.cmdid) ++
    m.host.flatMap fun host => Api.messageField 3 host.serialize

/-- `GetRouteResponse::ByteSizeLong`. -/
def byteSizeLong (m : Proto.GetRouteResponse) : ℕ :=
  (m.host.map fun host => messageFieldSize host.byteSizeLong).sum +
    varintFieldSize (ofInt m.modid) + varintFieldSize (ofInt m.cmdid)

/-- `GetRouteResponse::MergeFrom`. -/
def mergeFrom (m source : Proto.GetRouteResponse) : Proto.GetRouteResponse where
  modid := if source.modid ≠ 0 then source.modid else m.modid
  cmdid := if source.cmdid ≠ 0 then source.cmdid else m.cmdid
  host := m.host ++ source.host

/-- The cases of `GetRouteResponse::_InternalParse`. -/
def fields (R : ProtobufRuntime) : List (WireField Proto.GetRouteResponse) :=
  [int32Field R 1 8 fun m modid => { m with modid },
    int32Field R 2 16 fun m cmdid => { m with cmdid },
    repeatedField R 3 26 (internalParse R (HostInfo.fields R)) ⟨0, 0⟩
      fun m host => { m with host := m.host ++ [host] }]

/-- The items written. -/
def items (m : Proto.GetRouteResponse) : List Item :=
  varintItem 8 (ofInt m.modid) ++ varintItem 16 (ofInt m.cmdid) ++
    m.host.map fun host => messageItem 26 host.serialize

theorem foldl_host (hosts : List HostInfo) (m : Proto.GetRouteResponse) :
    hosts.foldl (fun m host => { m with host := m.host ++ [host] }) m =
      { m with host := m.host ++ hosts } := by
  induction hosts generalizing m with
  | nil => rw [List.append_nil]; rfl
  | cons host hosts ih => rw [List.foldl_cons, ih, List.append_assoc]; rfl

theorem writes (R : ProtobufRuntime) (m : Proto.GetRouteResponse) :
    Writes R (fields R) m.items fun m' => m'.mergeFrom m := by
  have hnodup : ((fields R).map WireField.number).Nodup :=
    (by decide : ([1, 2, 3] : List UInt32).Nodup)
  have hmodid := writes_int32 hnodup (by decide) (by decide) modid (.head _) (fun _ => rfl) m.modid
  have hcmdid := writes_int32 hnodup (by decide) (by decide) cmdid (.tail _ (.head _))
    (fun _ => rfl) m.cmdid
  have hhost := writes_messages hnodup (by decide) (by decide) (C := HostInfo.code R)
    (.tail _ (.tail _ (.head _))) HostInfo.length_serialize_le m.host
  refine ((hmodid.append hcmdid).append hhost).congr fun m' => ?_
  simp only [Function.comp, foldl_host]
  rfl

/-- The code for a response with routes. -/
def code (R : ProtobufRuntime) : Message R Proto.GetRouteResponse where
  clear := ⟨0, 0, []⟩
  fields := fields R
  serialize
  byteSizeLong
  mergeFrom
  items
  serialize_eq m := by
    simp only [items, List.flatMap_append]
    rw [flatMap_varintItem 1 (by decide) (by decide), flatMap_varintItem 2 (by decide) (by decide),
      flatMap_messageItem 3 (by decide) (by decide), serialize]
  byteSizeLong_eq m := by
    simp only [serialize, byteSizeLong, List.length_append, length_varintField,
      length_flatMap_messageField 3 HostInfo.byteSizeLong_eq]
    omega
  writes := writes R
  mergeFrom_clear m := by simp only [mergeFrom, ite_ne_self, List.nil_append]
  commute := by
    simp only [fields, List.pairwise_cons, List.forall_mem_cons, List.not_mem_nil, false_imp_iff,
      implies_true, List.Pairwise.nil, and_true]
    and_intros <;> exact fun _ _ _ => rfl

end Proto.GetRouteResponse

namespace Api.GetHostResponse

/-- `GetHostResponse::ByteSizeLong`. -/
def byteSizeLong (m : GetHostResponse) : ℕ :=
  (m.host.elim 0 fun host => messageFieldSize host.byteSizeLong) +
    varintFieldSize m.seq.toUInt64 + varintFieldSize (ofInt m.modid) +
    varintFieldSize (ofInt m.cmdid) + varintFieldSize (ofInt m.retcode)

/-- `GetHostResponse::_internal_mutable_host`. -/
def mutableHost (m : GetHostResponse) : HostInfo := m.host.getD ⟨0, 0⟩

/-- `GetHostResponse::MergeFrom`. -/
def mergeFrom (m source : GetHostResponse) : GetHostResponse where
  host := source.host.elim m.host fun host => some (m.mutableHost.mergeFrom host)
  seq := if source.seq ≠ 0 then source.seq else m.seq
  modid := if source.modid ≠ 0 then source.modid else m.modid
  cmdid := if source.cmdid ≠ 0 then source.cmdid else m.cmdid
  retcode := if source.retcode ≠ 0 then source.retcode else m.retcode

/-- The cases of `GetHostResponse::_InternalParse`. -/
def fields (R : ProtobufRuntime) : List (WireField GetHostResponse) :=
  [uint32Field R 1 8 fun m seq => { m with seq }, int32Field R 2 16 fun m modid => { m with modid },
    int32Field R 3 24 fun m cmdid => { m with cmdid },
    int32Field R 4 32 fun m retcode => { m with retcode },
    WireFormat.messageField R 5 42 (internalParse R (HostInfo.fields R)) mutableHost
      fun m host => { m with host := some host }]

/-- The items written. -/
def items (m : GetHostResponse) : List Item :=
  varintItem 8 m.seq.toUInt64 ++ varintItem 16 (ofInt m.modid) ++ varintItem 24 (ofInt m.cmdid) ++
    varintItem 32 (ofInt m.retcode) ++ m.host.elim [] fun host => [messageItem 42 host.serialize]

theorem writes (R : ProtobufRuntime) (m : GetHostResponse) :
    Writes R (fields R) m.items fun m' => m'.mergeFrom m := by
  have hnodup : ((fields R).map WireField.number).Nodup :=
    (by decide : ([1, 2, 3, 4, 5] : List UInt32).Nodup)
  have hseq := writes_uint32 hnodup (by decide) (by decide) seq (.head _) (fun _ => rfl) m.seq
  have hmodid := writes_int32 hnodup (by decide) (by decide) modid (.tail _ (.head _))
    (fun _ => rfl) m.modid
  have hcmdid := writes_int32 hnodup (by decide) (by decide) cmdid (.tail _ (.tail _ (.head _)))
    (fun _ => rfl) m.cmdid
  have hretcode := writes_int32 hnodup (by decide) (by decide) retcode
    (.tail _ (.tail _ (.tail _ (.head _)))) (fun _ => rfl) m.retcode
  have hnumbers := ((hseq.append hmodid).append hcmdid).append hretcode
  unfold items
  cases hhost : m.host with
  | none =>
    refine (hnumbers.append .nil).congr fun m' => ?_
    simp only [mergeFrom, hhost, Function.comp, Option.elim_none, id]
  | some host =>
    have hhost' := writes_submessage hnodup (by decide) (by decide) (C := HostInfo.code R)
      (.tail _ (.tail _ (.tail _ (.tail _ (.head _))))) (HostInfo.length_serialize_le host)
    refine (hnumbers.append hhost').congr fun m' => ?_
    simp only [mergeFrom, hhost, Function.comp, Option.elim_some]
    rfl

/-- The code for a response with a host. -/
def code (R : ProtobufRuntime) : Message R GetHostResponse where
  clear := {}
  fields := fields R
  serialize
  byteSizeLong
  mergeFrom
  items
  serialize_eq m := by
    simp only [items, List.flatMap_append]
    rw [flatMap_varintItem 1 (by decide) (by decide), flatMap_varintItem 2 (by decide) (by decide),
      flatMap_varintItem 3 (by decide) (by decide), flatMap_varintItem 4 (by decide) (by decide)]
    cases hhost : m.host with
    | none => simp only [serialize, hhost, Option.elim_none]; rfl
    | some host =>
      simp only [serialize, hhost, Option.elim_some]
      rw [List.flatMap_singleton, bytes_messageItem 5 (by decide) (by decide)]
      rfl
  byteSizeLong_eq m := by
    have hhost : (m.host.elim 0 fun host => messageFieldSize host.byteSizeLong) =
        (m.host.elim [] fun host => Api.messageField 5 host.serialize).length := by
      cases m.host with
      | none => rfl
      | some host =>
        rw [Option.elim_some, Option.elim_some, length_messageField, HostInfo.byteSizeLong_eq]
    rw [byteSizeLong, hhost]
    simp only [serialize, List.length_append, length_varintField]
    change _ = _ + _ + _ + _ + (m.host.elim [] fun host => Api.messageField 5 host.serialize).length
    simp only [ofInt]
    omega
  writes := writes R
  mergeFrom_clear m := by
    have hhost : (m.host.elim none fun host =>
        some (HostInfo.mergeFrom (mutableHost {}) host)) = m.host := by
      cases m.host with
      | none => rfl
      | some host => exact congrArg some ((HostInfo.code R).mergeFrom_clear host)
    simp only [mergeFrom, ite_ne_self, hhost]
  commute := by
    simp only [fields, List.pairwise_cons, List.forall_mem_cons, List.not_mem_nil, false_imp_iff,
      implies_true, List.Pairwise.nil, and_true]
    and_intros <;> exact fun _ _ _ => rfl

end Api.GetHostResponse

/-! ## All messages -/

namespace Proto

/-- The messages of `lars.proto`. -/
inductive MessageType
  | hostInfo
  | getRouteRequest
  | getRouteResponse
  | hostCallResult
  | reportStatusRequest
  | getHostRequest
  | getHostResponse
  deriving DecidableEq

namespace MessageType

/-- The class of a message. -/
def Msg : MessageType → Type
  | hostInfo => HostInfo
  | getRouteRequest => GetRouteRequest
  | getRouteResponse => Proto.GetRouteResponse
  | hostCallResult => HostCallResult
  | reportStatusRequest => ReportStatusRequest
  | getHostRequest => GetHostRequest
  | getHostResponse => Api.GetHostResponse

/-- The code generated for a message. -/
def code (R : ProtobufRuntime) : (t : MessageType) → Message R t.Msg
  | hostInfo => HostInfo.code R
  | getRouteRequest => GetRouteRequest.code R
  | getRouteResponse => Proto.GetRouteResponse.code R
  | hostCallResult => HostCallResult.code R
  | reportStatusRequest => ReportStatusRequest.code R
  | getHostRequest => GetHostRequest.code R
  | getHostResponse => Api.GetHostResponse.code R

end MessageType

variable (R : ProtobufRuntime) {t : MessageType}

/-- **Round trip**: a message that is not too long is written in as many bytes as `ByteSizeLong`
says, and read from them as it was. -/
theorem roundTrip (m : t.Msg) (h : (t.code R).byteSizeLong m ≤ maxSize) :
    ((t.code R).serialize m).length = (t.code R).byteSizeLong m ∧
      (t.code R).parse ((t.code R).serialize m) = (true, m) := by
  rw [(t.code R).byteSizeLong_eq] at h ⊢
  exact ⟨rfl, Message.parse_serialize h⟩

/-- A response with two equal hosts and one of port 0. -/
theorem roundTrip_hosts :
    (MessageType.getRouteResponse.code base128).parse
        ((MessageType.getRouteResponse.code base128).serialize
          ⟨1, -1, [⟨7, 80⟩, ⟨7, 80⟩, ⟨-5, 0⟩]⟩) =
      (true, ⟨1, -1, [⟨7, 80⟩, ⟨7, 80⟩, ⟨-5, 0⟩]⟩) :=
  (roundTrip base128 (t := .getRouteResponse) ⟨1, -1, [⟨7, 80⟩, ⟨7, 80⟩, ⟨-5, 0⟩]⟩ (by decide)).2

/-- **Concatenation is merging**: the bytes of two messages in one array are read as the second
merged into the first; and a copy is the message. -/
theorem parse_merged (m m' : t.Msg)
    (h : (t.code R).byteSizeLong m + (t.code R).byteSizeLong m' ≤ maxSize) :
    (t.code R).parse ((t.code R).serialize m ++ (t.code R).serialize m') =
        (true, (t.code R).mergeFrom m m') ∧
      (t.code R).copyFrom m m' = m' := by
  rw [(t.code R).byteSizeLong_eq, (t.code R).byteSizeLong_eq, ← List.length_append] at h
  exact ⟨Message.parse_append h, (t.code R).mergeFrom_clear m'⟩

/-- Two responses with hosts: the hosts of both, and the port of the second. -/
theorem parse_merged_host :
    (MessageType.getHostResponse.code base128).parse
        ((MessageType.getHostResponse.code base128).serialize ⟨1, 2, 3, 0, some ⟨7, 80⟩⟩ ++
          (MessageType.getHostResponse.code base128).serialize ⟨4, 0, 0, 0, some ⟨0, 90⟩⟩) =
      (true, ⟨4, 2, 3, 0, some ⟨7, 90⟩⟩) :=
  (parse_merged base128 (t := .getHostResponse) ⟨1, 2, 3, 0, some ⟨7, 80⟩⟩
    ⟨4, 0, 0, 0, some ⟨0, 90⟩⟩ (by decide)).1

/-- **Order and unknown fields**: from items that are, for each field, the message's in their order,
and otherwise unknown, the message is read. -/
theorem parse_reordered (m : t.Msg) {its : List Item}
    (hits : ∀ it ∈ its,
      it.Unknown (varint 10) (t.code R).fields ∨ (it.number? (t.code R).fields).isSome)
    (hfields : ∀ n, its.filter (Item.number? (t.code R).fields · = some n) =
      ((t.code R).items m).filter (Item.number? (t.code R).fields · = some n))
    (h : (its.flatMap (Item.bytes (varint 10))).length ≤ maxSize) :
    (t.code R).parse (its.flatMap (Item.bytes (varint 10))) = (true, m) :=
  Message.parse_items hits hfields h

/-- A request with its fields the other way round, and another field in between. -/
theorem parse_reordered_request :
    (MessageType.getRouteRequest.code base128).parse
        ([⟨16, [2]⟩, ⟨77, [1, 2, 3, 4]⟩, ⟨8, [1]⟩].flatMap (Item.bytes (varint 10))) =
      (true, ⟨1, 2⟩) := by
  refine parse_reordered base128 (t := .getRouteRequest) ⟨1, 2⟩ (fun it hit => ?_) (fun n => ?_)
    (by decide)
  · rcases List.mem_cons.mp hit with rfl | hit
    · exact Or.inr (by decide)
    rcases List.mem_cons.mp hit with rfl | hit
    · exact Or.inl ⟨List.find?_eq_none.mpr (by decide), by decide, .fixed32 rfl⟩
    · exact Or.inr (by rw [List.mem_singleton.mp hit]; decide)
  · have hmodid : Item.number? (MessageType.getRouteRequest.code base128).fields ⟨8, [1]⟩ =
      some 1 := by decide
    have hcmdid : Item.number? (MessageType.getRouteRequest.code base128).fields ⟨16, [2]⟩ =
      some 2 := by decide
    have hother : Item.number? (MessageType.getRouteRequest.code base128).fields
      ⟨77, [1, 2, 3, 4]⟩ = none := by decide
    have hitems : (MessageType.getRouteRequest.code base128).items ⟨1, 2⟩ =
      [⟨8, [1]⟩, ⟨16, [2]⟩] := by decide
    rw [hitems]
    simp only [List.filter_cons, List.filter_nil, hmodid, hcmdid, hother, Option.some.injEq]
    by_cases h₁ : 1 = n
    · subst h₁
      rfl
    · simp [h₁]

end Proto

end Lars
