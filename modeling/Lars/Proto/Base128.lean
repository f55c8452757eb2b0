import Lars.Foundations.WireFormat
import Lars.Proto

/-!
# Numbers in groups of seven bits

How numbers, lengths and payloads are read from the bytes that `varint` writes. `Runtime.base128` is
the part of the protobuf library that the generated code uses, on bytes that are all there at once.
-/

namespace Lars

open WireFormat Machine

/-- The number at the front, in at most `k` bytes, and what is behind it. -/
def readVarint : ℕ → List UInt8 → Option (ℕ × List UInt8)
  | 0, _ => none
  | _ + 1, [] => none
  | k + 1, b :: bs =>
    if b < 128 then some (b.toNat, bs)
    else (readVarint k bs).map fun (n, rest) => (b.toNat % 128 + 128 * n, rest)

theorem readVarint_of_lt {n : ℕ} (hn : n < 128) (k j : ℕ) (rest : List UInt8) :
    readVarint (k + 1) (varint (j + 1) n ++ rest) = some (n, rest) := by
  have hnat : n.toUInt8.toNat = n := by
    rw [UInt8.toNat_ofNat']
    exact Nat.mod_eq_of_lt (by omega)
  have hb : n.toUInt8 < 128 := by
    rw [UInt8.lt_iff_toNat_lt, hnat]
    exact hn
  rw [varint, if_pos hn, List.singleton_append, readVarint, if_pos hb, hnat]

/-- What was written is read, also by a reader that takes fewer bytes if they are enough. -/
theorem readVarint_varint {k j n : ℕ} (hn : n < 128 ^ (k + 1)) (hkj : k ≤ j) (rest : List UInt8) :
    readVarint (k + 1) (varint (j + 1) n ++ rest) = some (n, rest) := by
  induction k generalizing j n with
  | zero => exact readVarint_of_lt (by simpa using hn) 0 j rest
  | succ k ih =>
    obtain ⟨j, rfl⟩ : ∃ i, j = i + 1 := ⟨j - 1, by omega⟩
    by_cases hlt : n < 128
    · exact readVarint_of_lt hlt _ _ rest
    · have hnat : (n % 128 + 128).toUInt8.toNat = n % 128 + 128 := by
        rw [UInt8.toNat_ofNat']
        exact Nat.mod_eq_of_lt (by omega)
      have hb : ¬ (n % 128 + 128).toUInt8 < 128 := by
        rw [UInt8.lt_iff_toNat_lt, hnat]
        exact Nat.not_lt.mpr (Nat.le_add_left _ _)
      have hdiv : n / 128 < 128 ^ (k + 1) := by
        rw [Nat.div_lt_iff_lt_mul (by decide), ← Nat.pow_succ]
        exact hn
      rw [varint, if_neg hlt, List.cons_append, readVarint, if_neg hb,
        ih hdiv (Nat.le_of_succ_le_succ hkj), Option.map_some, hnat]
      exact congrArg (fun n => some (n, rest)) (by omega)

theorem length_readVarint_lt {k n : ℕ} {bs rest : List UInt8}
    (h : readVarint k bs = some (n, rest)) : rest.length < bs.length := by
  induction k generalizing bs n with
  | zero => cases h
  | succ k ih =>
    cases bs with
    | nil => cases h
    | cons b bs =>
      rw [readVarint] at h
      split_ifs at h
      · cases h
        exact Nat.lt_succ_self _
      · obtain ⟨⟨n', rest'⟩, hread, heq⟩ := Option.map_eq_some_iff.mp h
        cases heq
        exact Nat.lt_succ_of_lt (ih hread)

/-- A length, and what is behind it. -/
def readSize (bs : List UInt8) : Option (ℕ × List UInt8) :=
  match readVarint 5 bs with
  | none => none
  | some (n, rest) => if n + slopBytes ≤ maxSize then some (n, rest) else none

theorem readSize_varint {n : ℕ} (hn : n + slopBytes ≤ maxSize) (rest : List UInt8) :
    readSize (varint 10 n ++ rest) = some (n, rest) := by
  have hlt : n < 128 ^ 5 := by
    unfold slopBytes maxSize at hn
    omega
  rw [readSize, readVarint_varint hlt (by decide)]
  exact if_pos hn

theorem length_readSize_lt {n : ℕ} {bs rest : List UInt8} (h : readSize bs = some (n, rest)) :
    rest.length < bs.length := by
  unfold readSize at h
  split at h
  · cases h
  · rename_i n' rest' hread
    split_ifs at h
    cases h
    exact length_readVarint_lt hread

/-- A number for the generated code, which is 0 when reading has failed. -/
def readNumber {α : Type} (k : ℕ) (conv : ℕ → α) (bs : List UInt8) : Reading α :=
  match readVarint k bs with
  | none => (conv 0, none)
  | some (n, rest) => (conv n, some rest)

theorem length_readNumber_lt {α : Type} {k : ℕ} {conv : ℕ → α} {bs rest : List UInt8}
    (h : (readNumber k conv bs).2 = some rest) : rest.length < bs.length := by
  unfold readNumber at h
  split at h
  · cases h
  · rename_i n rest' hread
    cases h
    exact length_readVarint_lt hread

theorem readNumber_varint {α : Type} {k n : ℕ} (conv : ℕ → α) (hn : n < 128 ^ (k + 1)) (hk : k ≤ 9)
    (rest : List UInt8) : readNumber (k + 1) conv (varint 10 n ++ rest) = (conv n, some rest) := by
  rw [readNumber, readVarint_varint hn hk]

/-- `ParseContext::ParseMessage`: a message behind its length, which may say more than there is. -/
def parseMessage {M : Type} (parse : Parser M) (m : M) (bs : List UInt8) : Reading M :=
  match readSize bs with
  | none => (m, none)
  | some (n, rest) =>
    if n ≤ rest.length then
      match parse m (rest.take n) with
      | (m, .limit) => (m, some (rest.drop n))
      | (m, _) => (m, none)
    else ((parse m rest).1, none)

/-- `UnknownFieldParse`, groups excepted. -/
def unknownFieldParse (tag : UInt32) (bs : List UInt8) : Option (List UInt8) :=
  if tag >>> 3 = 0 then none
  else if tag &&& 7 = 0 then (readVarint 10 bs).map Prod.snd
  else if tag &&& 7 = 1 then if 8 ≤ bs.length then some (bs.drop 8) else none
  else if tag &&& 7 = 2 then
    (readSize bs).bind fun (n, rest) => if n ≤ rest.length then some (rest.drop n) else none
  else if tag &&& 7 = 5 then if 4 ≤ bs.length then some (bs.drop 4) else none
  else none

theorem parseMessage_varint {M : Type} {parse : Parser M} {m m' : M} {body : List UInt8}
    (hbody : body.length + slopBytes ≤ maxSize) (hparse : parse m body = (m', .limit))
    (rest : List UInt8) :
    parseMessage parse m (varint 10 body.length ++ (body ++ rest)) = (m', some rest) := by
  have hle : body.length ≤ (body ++ rest).length := (List.prefix_append _ _).length_le
  simp only [parseMessage, readSize_varint hbody, hle, if_true, List.take_left, List.drop_left,
    hparse]

theorem length_parseMessage_le {M : Type} {parse : Parser M} {m : M} {bs rest : List UInt8}
    (h : (parseMessage parse m bs).2 = some rest) : rest.length ≤ bs.length := by
  unfold parseMessage at h
  split at h
  · cases h
  · rename_i n rest' hsize
    have hlt := length_readSize_lt hsize
    split_ifs at h
    · split at h <;> cases h
      rw [List.length_drop]
      omega

theorem unknownFieldParse_payload {tag : UInt32} {l : List UInt8} (hnumber : tag >>> 3 ≠ 0)
    (hl : Payload (varint 10) (tag &&& 7) l) (rest : List UInt8) :
    unknownFieldParse tag (l ++ rest) = some rest := by
  unfold unknownFieldParse
  rw [if_neg hnumber]
  generalize tag &&& 7 = wireType at hl
  cases hl with
  | varint n =>
    have hn : n.toNat < 128 ^ (9 + 1) := Nat.lt_trans n.toNat_lt (by decide)
    rw [if_pos rfl, readVarint_varint hn (Nat.le_refl 9)]
    rfl
  | fixed64 h =>
    have hle : 8 ≤ (l ++ rest).length := h ▸ (List.prefix_append _ _).length_le
    rw [if_neg (by decide), if_pos rfl, if_pos hle, ← h, List.drop_left]
  | @lengthDelimited l h =>
    have hle : l.length ≤ (l ++ rest).length := (List.prefix_append _ _).length_le
    rw [if_neg (by decide), if_neg (by decide), if_pos rfl, List.append_assoc,
      readSize_varint h, Option.bind_some]
    dsimp only
    rw [if_pos hle, List.drop_left]
  | fixed32 h =>
    have hle : 4 ≤ (l ++ rest).length := h ▸ (List.prefix_append _ _).length_le
    rw [if_neg (by decide), if_neg (by decide), if_neg (by decide), if_pos rfl, if_pos hle, ← h,
      List.drop_left]

theorem length_unknownFieldParse_le {tag : UInt32} {bs rest : List UInt8}
    (h : unknownFieldParse tag bs = some rest) : rest.length ≤ bs.length := by
  unfold unknownFieldParse at h
  split_ifs at h
  · obtain ⟨⟨n, rest'⟩, hread, rfl⟩ := Option.map_eq_some_iff.mp h
    exact Nat.le_of_lt (length_readVarint_lt hread)
  · cases h
    rw [List.length_drop]
    exact Nat.sub_le _ _
  · obtain ⟨⟨n, rest'⟩, hread, h⟩ := Option.bind_eq_some_iff.mp h
    have hlt := length_readSize_lt hread
    dsimp only at h
    split_ifs at h
    cases h
    rw [List.length_drop]
    omega
  · cases h
    rw [List.length_drop]
    exact Nat.sub_le _ _

/-! ## Bytes behind what is read -/

theorem readVarint_append {k n : ℕ} {bs rest : List UInt8} (h : readVarint k bs = some (n, rest))
    (more : List UInt8) : readVarint k (bs ++ more) = some (n, rest ++ more) := by
  induction k generalizing bs n with
  | zero => cases h
  | succ k ih =>
    cases bs with
    | nil => cases h
    | cons b bs =>
      rw [readVarint] at h
      rw [List.cons_append, readVarint]
      split_ifs at h ⊢ with hb
      · cases h
        rfl
      · obtain ⟨⟨n', rest'⟩, hread, heq⟩ := Option.map_eq_some_iff.mp h
        cases heq
        rw [ih hread]
        rfl

theorem readSize_append {n : ℕ} {bs rest : List UInt8} (h : readSize bs = some (n, rest))
    (more : List UInt8) : readSize (bs ++ more) = some (n, rest ++ more) := by
  unfold readSize at h ⊢
  split at h
  · cases h
  · rename_i n' rest' hread
    rw [readVarint_append hread]
    dsimp only
    split_ifs at h ⊢
    cases h
    rfl

theorem stable_readNumber {α : Type} (k : ℕ) (conv : ℕ → α) : Stable (readNumber k conv) := by
  intro bs a rest more h
  unfold readNumber at h ⊢
  split at h
  · cases h
  · rename_i n rest' hread
    cases h
    rw [readVarint_append hread]

/-- A number of bytes that are there are skipped in front of more as well. -/
theorem drop_append_eq_some {n : ℕ} {bs rest : List UInt8}
    (h : (if n ≤ bs.length then some (bs.drop n) else none) = some rest) (more : List UInt8) :
    (if n ≤ (bs ++ more).length then some ((bs ++ more).drop n) else none) =
      some (rest ++ more) := by
  split_ifs at h with hle
  cases h
  rw [if_pos (Nat.le_trans hle (List.prefix_append _ _).length_le),
    List.drop_append_of_le_length hle]

theorem stable_parseMessage {M : Type} (parse : Parser M) (m : M) :
    Stable (parseMessage parse m) := by
  intro bs a rest more h
  unfold parseMessage at h ⊢
  split at h
  · cases h
  · rename_i n rest' hsize
    rw [readSize_append hsize]
    dsimp only
    split_ifs at h with hle
    · rw [if_pos (Nat.le_trans hle (List.prefix_append _ _).length_le),
        List.take_append_of_le_length hle, List.drop_append_of_le_length hle]
      split at h
      · cases h
        rfl
      · cases h
    · cases h

theorem unknownFieldParse_append {tag : UInt32} {bs rest : List UInt8}
    (h : unknownFieldParse tag bs = some rest) (more : List UInt8) :
    unknownFieldParse tag (bs ++ more) = some (rest ++ more) := by
  unfold unknownFieldParse at h ⊢
  -- by wire type
  by_cases hzero : tag >>> 3 = 0
  · rw [if_pos hzero] at h
    cases h
  rw [if_neg hzero] at h ⊢
  by_cases hvarint : tag &&& 7 = 0
  · rw [if_pos hvarint] at h ⊢
    obtain ⟨⟨n, rest'⟩, hread, rfl⟩ := Option.map_eq_some_iff.mp h
    rw [readVarint_append hread]
    rfl
  rw [if_neg hvarint] at h ⊢
  by_cases hfixed64 : tag &&& 7 = 1
  · rw [if_pos hfixed64] at h ⊢
    exact drop_append_eq_some h more
  rw [if_neg hfixed64] at h ⊢
  by_cases hdelimited : tag &&& 7 = 2
  · rw [if_pos hdelimited] at h ⊢
    obtain ⟨⟨n, rest'⟩, hread, hdrop⟩ := Option.bind_eq_some_iff.mp h
    rw [readSize_append hread]
    exact drop_append_eq_some hdrop more
  rw [if_neg hdelimited] at h ⊢
  by_cases hfixed32 : tag &&& 7 = 5
  · rw [if_pos hfixed32] at h ⊢
    exact drop_append_eq_some h more
  · rw [if_neg hfixed32] at h
    cases h

/-- The reading functions on bytes that are all there at once. -/
def base128 : Runtime (varint 10) where
  readTag := readNumber 5 Nat.toUInt32
  readVarint64 := readNumber 10 Nat.toUInt64
  readVarint32 := readNumber 10 fun n => n.toUInt64.toUInt32
  parseMessage := parseMessage
  unknownFieldParse := unknownFieldParse
  dataAvailable bs := !bs.isEmpty
  readTag_byte b rest hb _ := by
    rw [readNumber, readVarint, if_pos hb]
    exact congrArg (fun t => (t, some rest)) (UInt32.toNat_inj.mp (by simp))
  readTag_varint tag rest _ := by
    have htag : tag.toNat < 128 ^ (4 + 1) := Nat.lt_trans tag.toNat_lt (by decide)
    rw [readNumber_varint _ htag (by decide)]
    exact congrArg (fun t => (t, some rest)) (UInt32.ofNat_toNat)
  readVarint64_varint n rest _ := by
    have hn : n.toNat < 128 ^ (9 + 1) := Nat.lt_trans n.toNat_lt (by decide)
    rw [readNumber_varint _ hn (by decide)]
    exact congrArg (fun n => (n, some rest)) (UInt64.ofNat_toNat)
  readVarint32_varint n rest _ := by
    have hn : n.toNat < 128 ^ (9 + 1) := Nat.lt_trans n.toNat_lt (by decide)
    rw [readNumber_varint _ hn (by decide)]
    exact congrArg (fun n => (n.toUInt32, some rest)) (UInt64.ofNat_toNat)
  parseMessage_limit _ _ _ _ rest _ hbody hparse := parseMessage_varint hbody hparse rest
  unknownFieldParse_payload _ _ rest hnumber hl _ := unknownFieldParse_payload hnumber hl rest
  readTag_lt _ _ h := length_readNumber_lt h
  readVarint64_le _ _ h := Nat.le_of_lt (length_readNumber_lt h)
  readVarint32_le _ _ h := Nat.le_of_lt (length_readNumber_lt h)
  parseMessage_le _ _ _ _ h := length_parseMessage_le h
  unknownFieldParse_le _ _ _ h := length_unknownFieldParse_le h

/-- A field behind which more bytes may come. -/
theorem stableFields_base128 {M : Type} {fields : List (WireField M)}
    (h : ∀ f ∈ fields, f.repeated = false ∧ ∀ m, Stable (f.read m)) :
    StableFields base128 fields where
  readTag := stable_readNumber 5 Nat.toUInt32
  unknownFieldParse _ _ _ more hskip := unknownFieldParse_append hskip more
  read := h

/-- A tag with the number 0 ends the loop of a message, or skipping it fails. -/
theorem parseBody_zero {M : Type} {fields : List (WireField M)}
    (hnumber : ∀ f ∈ fields, f.number ≠ 0) (m : M) {tag : UInt8} (htag : tag < 8)
    (more : List UInt8) : ∃ ended, ended ≠ Ended.limit ∧
      parseBody base128 fields (m, tag :: more) = .ok (.leave (m, ended)) := by
  have hread : base128.readTag (tag :: more) = (tag.toUInt32, some more) := by
    have hlt : tag < 128 := UInt8.lt_trans htag (by decide)
    change readNumber 5 Nat.toUInt32 (tag :: more) = _
    rw [readNumber, readVarint, if_pos hlt]
    exact congrArg (fun t => (t, some more)) (UInt32.toNat_inj.mp (by simp))
  have hzero : tag.toUInt32 >>> 3 = 0 := by
    have hnat := UInt8.lt_iff_toNat_lt.mp htag
    refine UInt32.toNat_inj.mp ?_
    rw [UInt32.toNat_shiftRight, UInt8.toNat_toUInt32, Nat.shiftRight_eq_div_pow]
    exact Nat.div_eq_of_lt hnat
  have hfind : fields.find? (fun f =>
      f.number = tag.toUInt32 >>> 3 && f.tag = tag.toUInt32.toUInt8) = none := by
    refine List.find?_eq_none.mpr fun f hf => ?_
    rw [hzero]
    simp [hnumber f hf]
  have hskip : base128.unknownFieldParse tag.toUInt32 more = none := by
    change unknownFieldParse tag.toUInt32 more = none
    rw [unknownFieldParse, if_pos hzero]
  unfold parseBody
  simp only [reduceCtorEq, if_false, hread, hfind, hskip]
  split_ifs
  · exact ⟨.tag tag.toUInt32 more, Ended.noConfusion, rfl⟩
  · exact ⟨.failed, Ended.noConfusion, rfl⟩

/-- **A tag with the number 0** behind a whole message: parsing fails, and the message is left as it
was read. -/
theorem parseFromArray_zero {M : Type} {fields : List (WireField M)}
    (h : ∀ f ∈ fields, f.repeated = false ∧ ∀ m, Stable (f.read m))
    (hnumber : ∀ f ∈ fields, f.number ≠ 0) {clear m : M} {body : List UInt8}
    (hbody : parseFromArray base128 fields clear body = (true, m)) {tag : UInt8} (htag : tag < 8)
    (more : List UInt8) :
    parseFromArray base128 fields clear (body ++ tag :: more) = (false, m) := by
  obtain ⟨ended, hread⟩ : ∃ ended, internalParse base128 fields clear body = (m, ended) :=
    ⟨_, Prod.ext (congrArg Prod.snd hbody) rfl⟩
  have hlimit : ended = .limit := by
    rw [parseFromArray, hread] at hbody
    simpa using hbody
  rw [hlimit] at hread
  obtain ⟨ended', hne, hpass⟩ := parseBody_zero hnumber m htag more
  have hbehind : internalParse base128 fields m (tag :: more) = (m, ended') :=
    value_eq (loop_leave _ hpass)
  rw [parseFromArray, internalParse_append (stableFields_base128 h) hread, hbehind]
  simp [hne]

end Lars
