import Lars.Foundations.Loop
import Mathlib.Data.List.Nodup
import Mathlib.Data.List.Pairwise
import Mathlib.Tactic.Ring

/-!
# Messages of tagged fields

A message is written as its fields one after another, each as a tag and a payload; the tag is the
field's number and the wire type of the payload in one number. The parser of a message reads a tag,
looks for the field with that number, and leaves the payload to the field (`WireField.read`); a
field it does not know is skipped. `Runtime` is what the parsers of all messages share, with what it
is documented to do on bytes that follow the format: `varint` writes a number.

* Fields that repeat are read in a loop of their own while their tag comes again; that is the same
  as going back to the loop of the message (`readsAs_occurrence`).
* Bytes with an effect on the message come one after another to their effects one after another
  (`ReadsAs.append`); unknown fields have no effect (`readsAs_unknown`).
* Occurrences of different fields commute, so that their order does not matter
  (`foldl_eq_of_filter_eq`).
-/

namespace Lars.WireFormat

open Machine

/-- The longest message that can be read. -/
def maxSize : ℕ := 2 ^ 31 - 1

/-- The room that is kept free behind what a length says. -/
def slopBytes : ℕ := 16

/-- How a message's parser ends: at the limit of its bytes, on a tag that ends a group, or having
failed. -/
inductive Ended
  | limit
  | tag (tag : UInt32) (rest : List UInt8)
  | failed
  deriving DecidableEq

/-- What is read, and the bytes behind it, if reading has not failed. -/
abbrev Reading (α : Type*) := α × Option (List UInt8)

/-- The parser of a message: what the message is before and after. -/
abbrev Parser (M : Type) := M → List UInt8 → M × Ended

/-- A payload of a wire type. -/
inductive Payload (varint : ℕ → List UInt8) : UInt32 → List UInt8 → Prop
  | varint (n : UInt64) : Payload varint 0 (varint n.toNat)
  | fixed64 {l : List UInt8} (h : l.length = 8) : Payload varint 1 l
  | lengthDelimited {l : List UInt8} (h : l.length + slopBytes ≤ maxSize) :
    Payload varint 2 (varint l.length ++ l)
  | fixed32 {l : List UInt8} (h : l.length = 4) : Payload varint 5 l

/-- The primitives of the parsers, which are given the bytes from the position to the limit. -/
structure Runtime (varint : ℕ → List UInt8) where
  readTag : List UInt8 → Reading UInt32
  readVarint64 : List UInt8 → Reading UInt64
  readVarint32 : List UInt8 → Reading UInt32
  /-- A message behind its length. -/
  parseMessage {M : Type} : Parser M → M → List UInt8 → Reading M
  /-- Skip the payload behind a tag. -/
  unknownFieldParse : UInt32 → List UInt8 → Option (List UInt8)
  /-- Whether the next byte can be looked at. -/
  dataAvailable : List UInt8 → Bool
  readTag_byte (b : UInt8) (rest : List UInt8) (hb : b < 128)
    (h : (b :: rest).length ≤ maxSize) : readTag (b :: rest) = (b.toUInt32, some rest)
  readTag_varint (tag : UInt32) (rest : List UInt8)
    (h : (varint tag.toNat ++ rest).length ≤ maxSize) :
    readTag (varint tag.toNat ++ rest) = (tag, some rest)
  readVarint64_varint (n : UInt64) (rest : List UInt8)
    (h : (varint n.toNat ++ rest).length ≤ maxSize) :
    readVarint64 (varint n.toNat ++ rest) = (n, some rest)
  readVarint32_varint (n : UInt64) (rest : List UInt8)
    (h : (varint n.toNat ++ rest).length ≤ maxSize) :
    readVarint32 (varint n.toNat ++ rest) = (n.toUInt32, some rest)
  parseMessage_limit {M : Type} (parse : Parser M) (m m' : M) (body rest : List UInt8)
    (h : (varint body.length ++ (body ++ rest)).length ≤ maxSize)
    (hbody : body.length + slopBytes ≤ maxSize) (hparse : parse m body = (m', .limit)) :
    parseMessage parse m (varint body.length ++ (body ++ rest)) = (m', some rest)
  unknownFieldParse_payload (tag : UInt32) (l rest : List UInt8) (hnumber : tag >>> 3 ≠ 0)
    (hl : Payload varint (tag &&& 7) l) (h : (l ++ rest).length ≤ maxSize) :
    unknownFieldParse tag (l ++ rest) = some rest
  readTag_lt (bs rest : List UInt8) (h : (readTag bs).2 = some rest) : rest.length < bs.length
  readVarint64_le (bs rest : List UInt8) (h : (readVarint64 bs).2 = some rest) :
    rest.length ≤ bs.length
  readVarint32_le (bs rest : List UInt8) (h : (readVarint32 bs).2 = some rest) :
    rest.length ≤ bs.length
  parseMessage_le {M : Type} (parse : Parser M) (m : M) (bs rest : List UInt8)
    (h : (parseMessage parse m bs).2 = some rest) : rest.length ≤ bs.length
  unknownFieldParse_le (tag : UInt32) (bs rest : List UInt8)
    (h : unknownFieldParse tag bs = some rest) : rest.length ≤ bs.length

/-- A field of the messages `M`: its number, the byte of its tag, and what reading it behind its tag
does. Those that repeat are read on while the tag comes again. -/
structure WireField (M : Type) where
  number : UInt32
  tag : UInt8
  repeated : Bool := false
  read : M → List UInt8 → Reading M
  read_le : ∀ m bs rest, (read m bs).2 = some rest → rest.length ≤ bs.length

variable {varint : ℕ → List UInt8} (R : Runtime varint) {M : Type}

/-! ## The parser of a message -/

/-- The result of a loop without errors. -/
def value {ρ : Type*} : Except Empty ρ → ρ
  | .ok r => r

/-- A pass of the loop that reads a field that repeats. -/
def repeatBody (f : WireField M) (s : M × List UInt8) :
    Except Empty (Pass (M × List UInt8) (Reading M)) :=
  match f.read s.1 s.2 with
  | (m, none) => .ok (.leave (m, none))
  | (m, some rest) =>
    if R.dataAvailable rest ∧ rest.head? = some f.tag then .ok (.next (m, rest.tail))
    else .ok (.leave (m, some rest))

theorem repeatBody_decreases (f : WireField M) :
    Decreases (repeatBody R f) fun s => s.2.length := by
  intro s s' h
  unfold repeatBody at h
  split at h
  · cases h
  · rename_i m rest hread
    split_ifs at h with htag
    · cases h
      have hle := f.read_le s.1 s.2 rest (by rw [hread])
      have hpos : 0 < rest.length := by
        cases rest with
        | nil => cases htag.2
        | cons b rest => exact Nat.succ_pos _
      simp only [List.length_tail]
      omega
    · cases h

/-- Read a field behind its tag. -/
def readField (f : WireField M) (m : M) (bs : List UInt8) : Reading M :=
  if f.repeated then value (loop (repeatBody R f) (repeatBody_decreases R f) (m, bs))
  else f.read m bs

theorem value_eq {ρ : Type*} {x : Except Empty ρ} {r : ρ} (h : x = .ok r) : value x = r := by
  rw [h]
  rfl

theorem readField_le {f : WireField M} {m : M} {bs rest : List UInt8}
    (h : (readField R f m bs).2 = some rest) : rest.length ≤ bs.length := by
  unfold readField at h
  split_ifs at h
  · cases hl : loop (repeatBody R f) (repeatBody_decreases R f) (m, bs) with
    | error e => exact e.elim
    | ok r =>
      rw [value_eq hl] at h
      revert h
      refine loop_invariant (repeatBody_decreases R f) (I := fun s => s.2.length ≤ bs.length)
        (Q := fun r => r.2 = some rest → rest.length ≤ bs.length) ?_ ?_ (Nat.le_refl _) hl
      · intro s s' hs hb
        exact Nat.le_trans (Nat.le_of_lt (repeatBody_decreases R f s s' hb)) hs
      · intro s r hs hb hr
        refine Nat.le_trans (f.read_le s.1 s.2 rest ?_) hs
        unfold repeatBody at hb
        split at hb
        · cases hb
          cases hr
        · rename_i m' rest' hread
          split_ifs at hb <;> cases hb
          rw [hread]
          exact hr
  · exact f.read_le m bs rest h

/-- A pass of a message's parser: it ends at the limit, or reads a tag and what is behind it. A tag
that no field expects is skipped with its payload, unless it ends a group or is 0. -/
def parseBody (fields : List (WireField M)) (s : M × List UInt8) :
    Except Empty (Pass (M × List UInt8) (M × Ended)) :=
  if s.2 = [] then .ok (.leave (s.1, .limit))
  else
    match R.readTag s.2 with
    | (_, none) => .ok (.leave (s.1, .failed))
    | (tag, some rest) =>
      match fields.find? fun f => f.number = tag >>> 3 && f.tag = tag.toUInt8 with
      | some f =>
        match readField R f s.1 rest with
        | (m, none) => .ok (.leave (m, .failed))
        | (m, some rest) => .ok (.next (m, rest))
      | none =>
        if tag &&& 7 = 4 ∨ tag = 0 then .ok (.leave (s.1, .tag tag rest))
        else
          match R.unknownFieldParse tag rest with
          | none => .ok (.leave (s.1, .failed))
          | some rest => .ok (.next (s.1, rest))

theorem parseBody_decreases (fields : List (WireField M)) :
    Decreases (parseBody R fields) fun s => s.2.length := by
  intro s s' h
  unfold parseBody at h
  split_ifs at h
  · cases h
  split at h
  · cases h
  · rename_i tag rest htag
    have hlt : rest.length < s.2.length := R.readTag_lt s.2 rest (by rw [htag])
    split at h
    · rename_i f hfind
      split at h
      · cases h
      · rename_i m rest' hread
        cases h
        exact Nat.lt_of_le_of_lt (readField_le R (by rw [hread])) hlt
    · split_ifs at h
      · cases h
      split at h
      · cases h
      · rename_i rest' hskip
        cases h
        exact Nat.lt_of_le_of_lt (R.unknownFieldParse_le tag rest rest' hskip) hlt

/-- The parser of the messages with the fields. -/
def internalParse (fields : List (WireField M)) : Parser M := fun m bs =>
  value (loop (parseBody R fields) (parseBody_decreases R fields) (m, bs))

/-- The parser of whole messages: what it returns, and the message as it is left. `clear` is the
message without fields. -/
def parseFromArray (fields : List (WireField M)) (clear : M) (bs : List UInt8) : Bool × M :=
  let (m, ended) := internalParse R fields clear bs
  (ended = .limit, m)

/-! ## Items -/

/-- A tag and the payload behind it. -/
structure Item where
  tag : UInt32
  payload : List UInt8
  deriving DecidableEq

namespace Item

/-- The bytes of an item. -/
def bytes (varint : ℕ → List UInt8) (it : Item) : List UInt8 := varint it.tag.toNat ++ it.payload

/-- The field an item is for, if it is known. -/
def field? (fields : List (WireField M)) (it : Item) : Option (WireField M) :=
  fields.find? fun f => f.number = it.tag >>> 3 && f.tag = it.tag.toUInt8

/-- The number of the field an item is for. -/
def number? (fields : List (WireField M)) (it : Item) : Option UInt32 :=
  (it.field? fields).map WireField.number

/-- What an item does to a message: a known one is read, an unknown one has no effect. -/
def effect (fields : List (WireField M)) (m : M) (it : Item) : M :=
  match it.field? fields with
  | some f => (f.read m it.payload).1
  | none => m

/-- An item that no field expects. -/
structure Unknown (varint : ℕ → List UInt8) (fields : List (WireField M)) (it : Item) : Prop where
  field?_eq : it.field? fields = none
  number_ne : it.tag >>> 3 ≠ 0
  payload : Payload varint (it.tag &&& 7) it.payload

end Item

/-! ## What bytes do to a message -/

/-- In front of whatever follows, the bytes are read with the effect `e`. -/
def ReadsAs (fields : List (WireField M)) (bytes : List UInt8) (e : M → M) : Prop :=
  ∀ m rest, (bytes ++ rest).length ≤ maxSize →
    internalParse R fields m (bytes ++ rest) = internalParse R fields (e m) rest

/-- The field that a tag is for. -/
def Expects (fields : List (WireField M)) (f : WireField M) : Prop :=
  f.tag < 128 ∧
    fields.find? (fun g => g.number = f.tag.toUInt32 >>> 3 && g.tag = f.tag.toUInt32.toUInt8) =
      some f

variable {R} {fields : List (WireField M)}

/-- A field is found by its tag when no other field has its number. -/
theorem expects_of_mem (hnodup : (fields.map WireField.number).Nodup) {f : WireField M}
    (hf : f ∈ fields) (htag : f.tag < 128) (hnumber : f.tag.toUInt32 >>> 3 = f.number) :
    Expects fields f := by
  refine ⟨htag, ?_⟩
  rw [UInt8.toUInt8_toUInt32, hnumber]
  cases hfind : fields.find? fun g => g.number = f.number && g.tag = f.tag with
  | none => simpa using List.find?_eq_none.mp hfind f hf
  | some g =>
    have hg : g.number = f.number := by
      have hg := List.find?_some hfind
      simp only [Bool.and_eq_true, decide_eq_true_eq] at hg
      exact hg.1
    rw [List.inj_on_of_nodup_map hnodup (List.mem_of_find?_eq_some hfind) hf hg]

theorem internalParse_nil (m : M) : internalParse R fields m [] = (m, .limit) :=
  value_eq (loop_leave _ (if_pos rfl))

theorem internalParse_congr {m m' : M} {bs bs' : List UInt8}
    (h : parseBody R fields (m, bs) = parseBody R fields (m', bs')) :
    internalParse R fields m bs = internalParse R fields m' bs' := by
  rw [internalParse, internalParse, loop_eq, h, ← loop_eq]

theorem internalParse_next {m m' : M} {bs rest : List UInt8}
    (h : parseBody R fields (m, bs) = .ok (.next (m', rest))) :
    internalParse R fields m bs = internalParse R fields m' rest := by
  rw [internalParse, loop_next _ h]
  rfl

namespace ReadsAs

theorem nil : ReadsAs R fields [] id := fun _ _ _ => rfl

theorem append {bytes bytes' : List UInt8} {e e' : M → M} (h : ReadsAs R fields bytes e)
    (h' : ReadsAs R fields bytes' e') : ReadsAs R fields (bytes ++ bytes') (e' ∘ e) := by
  intro m rest hsize
  rw [List.append_assoc] at hsize ⊢
  rw [h m _ hsize]
  exact h' (e m) rest (Nat.le_trans (List.suffix_append _ _).length_le hsize)

theorem congr {bytes : List UInt8} {e e' : M → M} (h : ReadsAs R fields bytes e)
    (he : ∀ m, e m = e' m) : ReadsAs R fields bytes e' := funext he ▸ h

/-- Bytes that are all there is. -/
theorem internalParse {bytes : List UInt8} {e : M → M} (h : ReadsAs R fields bytes e)
    (hsize : bytes.length ≤ maxSize) (m : M) :
    WireFormat.internalParse R fields m bytes = (e m, .limit) := by
  have hall := h m [] (by rwa [List.append_nil])
  rwa [List.append_nil, internalParse_nil] at hall

theorem parseFromArray {bytes : List UInt8} {e : M → M} (h : ReadsAs R fields bytes e)
    (hsize : bytes.length ≤ maxSize) (clear : M) :
    WireFormat.parseFromArray R fields clear bytes = (true, e clear) := by
  rw [WireFormat.parseFromArray, h.internalParse hsize]
  rfl

end ReadsAs

/-- A pass on the tag of a field. -/
theorem parseBody_field {f : WireField M} (hf : Expects fields f) (m : M) {bs : List UInt8}
    (hsize : (f.tag :: bs).length ≤ maxSize) :
    parseBody R fields (m, f.tag :: bs) =
      match readField R f m bs with
      | (m, none) => .ok (.leave (m, .failed))
      | (m, some rest) => .ok (.next (m, rest)) := by
  have htag := R.readTag_byte f.tag bs hf.1 hsize
  unfold parseBody
  simp only [reduceCtorEq, if_false, htag, hf.2]

/-- The loop of a field that repeats does what the loop of the message would do. -/
theorem readField_repeated {f : WireField M} (hrep : f.repeated = true) {m m' : M}
    {bs rest : List UInt8} (hread : f.read m bs = (m', some rest)) :
    readField R f m bs = (m', some rest) ∨
      rest = f.tag :: rest.tail ∧ readField R f m bs = readField R f m' rest.tail := by
  by_cases hagain : R.dataAvailable rest ∧ rest.head? = some f.tag
  · have hb : repeatBody R f (m, bs) = .ok (.next (m', rest.tail)) := by
      simp only [repeatBody, hread, hagain, and_self, if_true]
    refine Or.inr ⟨?_, ?_⟩
    · cases rest with
      | nil => cases hagain.2
      | cons b rest => rw [Option.some.inj hagain.2, List.tail_cons]
    · rw [readField, if_pos hrep, loop_next _ hb, readField, if_pos hrep]
  · have hb : repeatBody R f (m, bs) = .ok (.leave (m', some rest)) := by
      simp only [repeatBody, hread, hagain, if_false]
    left
    rw [readField, if_pos hrep]
    exact value_eq (loop_leave _ hb)

/-- **A field's occurrence** has the effect of its payload, whether or not the field repeats. -/
theorem readsAs_occurrence {f : WireField M} (hf : Expects fields f) {p : List UInt8} {e : M → M}
    (hread : ∀ m rest, (p ++ rest).length ≤ maxSize → f.read m (p ++ rest) = (e m, some rest)) :
    ReadsAs R fields (f.tag :: p) e := by
  intro m rest hsize
  rw [List.cons_append] at hsize ⊢
  have hp := hread m rest (Nat.le_of_succ_le hsize)
  have hpass := parseBody_field (R := R) hf m hsize
  have honce : readField R f m (p ++ rest) = (e m, some rest) →
      internalParse R fields m (f.tag :: (p ++ rest)) = internalParse R fields (e m) rest := by
    intro h
    rw [h] at hpass
    exact internalParse_next hpass
  cases hrep : f.repeated with
  | false => exact honce (by rw [readField, hrep, if_neg Bool.false_ne_true, hp])
  | true =>
    rcases readField_repeated (R := R) hrep hp with h | ⟨hrest, h⟩
    · exact honce h
    · -- the tag comes again: the inner loop goes on as the outer one would start over
      refine internalParse_congr ?_
      have hsize' : (f.tag :: rest.tail).length ≤ maxSize := by
        rw [← hrest]
        refine Nat.le_trans ?_ hsize
        rw [List.length_cons, List.length_append]
        omega
      rw [hpass, h, ← parseBody_field hf (e m) hsize', ← hrest]

theorem varint_ne_nil (R : Runtime varint) {tag : UInt32}
    (h : (varint tag.toNat).length ≤ maxSize) : varint tag.toNat ≠ [] := by
  intro hnil
  have hread := R.readTag_varint tag [] (by rwa [List.append_nil])
  rw [hnil, List.nil_append] at hread
  exact absurd (R.readTag_lt [] [] (by rw [hread])) (Nat.lt_irrefl 0)

/-- **An unknown item** is read, and has no effect. -/
theorem Item.Unknown.readsAs {it : Item} (h : it.Unknown varint fields) :
    ReadsAs R fields (it.bytes varint) fun m => it.effect fields m := by
  intro m rest hsize
  rw [Item.bytes, List.append_assoc] at hsize ⊢
  have hread := R.readTag_varint it.tag (it.payload ++ rest) hsize
  have hskip := R.unknownFieldParse_payload it.tag it.payload rest h.number_ne h.payload
    (Nat.le_trans (List.suffix_append _ _).length_le hsize)
  have hgroup : ¬ (it.tag &&& 7 = 4 ∨ it.tag = 0) := by
    rintro (htag | htag)
    · have hp := h.payload
      rw [htag] at hp
      cases hp
    · exact h.number_ne (by rw [htag]; rfl)
  have hnil : ¬ varint it.tag.toNat ++ (it.payload ++ rest) = [] := by
    have hne := varint_ne_nil R (Nat.le_trans (List.prefix_append _ _).length_le hsize)
    simp [hne]
  have hfield := h.field?_eq
  unfold Item.field? at hfield
  refine internalParse_next ?_
  unfold parseBody Item.effect Item.field?
  simp only [hnil, if_false, hread, hfield, hgroup, hskip]

theorem readsAs_flatMap {its : List Item}
    (h : ∀ it ∈ its, ReadsAs R fields (it.bytes varint) fun m => it.effect fields m) :
    ReadsAs R fields (its.flatMap (Item.bytes varint)) fun m =>
      its.foldl (Item.effect fields) m := by
  induction its with
  | nil => exact .nil
  | cons it its ih =>
    exact (h it List.mem_cons_self).append (ih fun it' h' => h it' (List.mem_cons_of_mem it h'))

/-! ## Bytes behind a whole message -/

section Behind

/-- What is read does not depend on the bytes behind it. -/
def Stable {α : Type*} (read : List UInt8 → Reading α) : Prop :=
  ∀ bs a rest more, read bs = (a, some rest) → read (bs ++ more) = (a, some (rest ++ more))

theorem Stable.map {α β : Type*} {read : List UInt8 → Reading α} (h : Stable read) (f : α → β) :
    Stable fun bs => (read bs).map f id := by
  intro bs b rest more hread
  obtain ⟨hb, hrest⟩ := Prod.mk.inj hread
  have hbs := h bs (read bs).1 rest more (Prod.ext rfl hrest)
  dsimp only
  rw [hbs, ← hb]
  rfl

/-- The reading functions do not depend on the bytes behind what they read, and no field of the
message repeats. -/
structure StableFields (R : Runtime varint) (fields : List (WireField M)) : Prop where
  readTag : Stable R.readTag
  unknownFieldParse : ∀ tag bs rest more, R.unknownFieldParse tag bs = some rest →
    R.unknownFieldParse tag (bs ++ more) = some (rest ++ more)
  read : ∀ f ∈ fields, f.repeated = false ∧ ∀ m, Stable (f.read m)

theorem parseBody_append (hstable : StableFields R fields) {m m' : M} {bs rest : List UInt8}
    (h : parseBody R fields (m, bs) = .ok (.next (m', rest))) (more : List UInt8) :
    parseBody R fields (m, bs ++ more) = .ok (.next (m', rest ++ more)) := by
  unfold parseBody at h ⊢
  dsimp only at h ⊢
  split_ifs at h with hnil
  · cases h
  have hnil' : bs ++ more ≠ [] := fun h => hnil (List.append_eq_nil_iff.mp h).1
  rw [if_neg hnil']
  split at h
  · cases h
  · rename_i tag behind htag
    rw [hstable.readTag bs tag behind more htag]
    dsimp only
    split at h
    · rename_i f hfind
      obtain ⟨hrep, hread⟩ := hstable.read f (List.mem_of_find?_eq_some hfind)
      rw [readField, hrep, if_neg Bool.false_ne_true] at h
      simp only [readField, hrep, if_neg Bool.false_ne_true]
      split at h
      · cases h
      · rename_i m₁ rest₁ hread₁
        cases h
        rw [hread m behind m' rest more hread₁]
    · rename_i hfind
      split_ifs at h with hgroup
      · cases h
      rw [if_neg hgroup]
      split at h
      · cases h
      · rename_i rest₁ hskip
        cases h
        rw [hstable.unknownFieldParse tag behind rest more hskip]

/-- **Bytes behind a whole message** are read as they would be after it. -/
theorem internalParse_append (hstable : StableFields R fields) {m m' : M} {bs : List UInt8}
    (h : internalParse R fields m bs = (m', .limit)) (more : List UInt8) :
    internalParse R fields m (bs ++ more) = internalParse R fields m' more := by
  cases hpass : parseBody R fields (m, bs) with
  | error e => exact e.elim
  | ok pass =>
    cases pass with
    | next s =>
      obtain ⟨m₁, rest⟩ := s
      have hlt : rest.length < bs.length := parseBody_decreases R fields (m, bs) (m₁, rest) hpass
      rw [internalParse_next hpass] at h
      rw [internalParse_next (parseBody_append hstable hpass more)]
      exact internalParse_append hstable h more
    | leave r =>
      have hr : internalParse R fields m bs = r := value_eq (loop_leave _ hpass)
      rw [h] at hr
      subst hr
      -- only at the end of the bytes is a message whole
      unfold parseBody at hpass
      dsimp only at hpass
      split_ifs at hpass with hnil
      · cases hpass
        rw [hnil, List.nil_append]
      · split at hpass
        · cases hpass
        · split at hpass
          · split at hpass <;> cases hpass
          · split_ifs at hpass
            · cases hpass
            · split at hpass <;> cases hpass
termination_by bs.length

end Behind

/-! ## The fields of a message -/

variable (R) in
/-- Items that are read, with the effect `e` together. -/
structure Writes (fields : List (WireField M)) (its : List Item) (e : M → M) : Prop where
  readsAs : ∀ it ∈ its, ReadsAs R fields (it.bytes varint) fun m => it.effect fields m
  foldl_eq : ∀ m, its.foldl (Item.effect fields) m = e m

namespace Writes

theorem nil : Writes R fields [] id := ⟨fun _ h => absurd h List.not_mem_nil, fun _ => rfl⟩

theorem append {its its' : List Item} {e e' : M → M} (h : Writes R fields its e)
    (h' : Writes R fields its' e') : Writes R fields (its ++ its') (e' ∘ e) where
  readsAs it hit := (List.mem_append.mp hit).elim (h.readsAs it) (h'.readsAs it)
  foldl_eq m := by rw [List.foldl_append, h.foldl_eq, h'.foldl_eq, Function.comp]

theorem congr {its : List Item} {e e' : M → M} (h : Writes R fields its e)
    (he : ∀ m, e m = e' m) : Writes R fields its e' := funext he ▸ h

end Writes

/-- An item for a field, whose payload is all that the field reads. -/
theorem writes_item {f : WireField M} (hf : Expects fields f)
    (htag : varint f.tag.toNat = [f.tag]) {p : List UInt8} (hp : p.length ≤ maxSize) {e : M → M}
    (hread : ∀ m rest, (p ++ rest).length ≤ maxSize → f.read m (p ++ rest) = (e m, some rest)) :
    Writes R fields [⟨f.tag.toUInt32, p⟩] e := by
  have heffect : ∀ m, Item.effect fields m ⟨f.tag.toUInt32, p⟩ = e m := by
    intro m
    have hall := hread m [] (by rwa [List.append_nil])
    rw [List.append_nil] at hall
    unfold Item.effect Item.field?
    simp only [hf.2, hall]
  refine ⟨fun it hit => ?_, heffect⟩
  obtain rfl := List.mem_singleton.mp hit
  have hbytes : Item.bytes varint ⟨f.tag.toUInt32, p⟩ = f.tag :: p := by
    rw [Item.bytes, UInt8.toNat_toUInt32, htag]
    rfl
  rw [hbytes]
  exact (readsAs_occurrence hf hread).congr fun m => (heffect m).symm

section Kinds

variable (R)

/-- A field with a number that is read in 64 bits. -/
def varint64Field (number : UInt32) (tag : UInt8) (set : M → UInt64 → M) : WireField M where
  number
  tag
  read m bs := ((R.readVarint64 bs).map (set m) id)
  read_le _ bs rest h := R.readVarint64_le bs rest h

/-- A field with a number that is read in 32 bits. -/
def varint32Field (number : UInt32) (tag : UInt8) (set : M → UInt32 → M) : WireField M where
  number
  tag
  read m bs := ((R.readVarint32 bs).map (set m) id)
  read_le _ bs rest h := R.readVarint32_le bs rest h

/-- A field with a message, read into the one that is there. -/
def messageField {N : Type} (number : UInt32) (tag : UInt8) (parse : Parser N) (mutable : M → N)
    (set : M → N → M) : WireField M where
  number
  tag
  read m bs := ((R.parseMessage parse (mutable m) bs).map (set m) id)
  read_le m bs rest h := R.parseMessage_le parse (mutable m) bs rest h

/-- A field with any number of messages, each read into a new one. -/
def repeatedField {N : Type} (number : UInt32) (tag : UInt8) (parse : Parser N) (clear : N)
    (add : M → N → M) : WireField M where
  number
  tag
  repeated := true
  read m bs := ((R.parseMessage parse clear bs).map (add m) id)
  read_le _ bs rest h := R.parseMessage_le parse clear bs rest h

variable {R}

theorem stable_varint64Field (h : Stable R.readVarint64) (number : UInt32) (tag : UInt8)
    (set : M → UInt64 → M) (m : M) : Stable ((varint64Field R number tag set).read m) :=
  h.map (set m)

theorem stable_varint32Field (h : Stable R.readVarint32) (number : UInt32) (tag : UInt8)
    (set : M → UInt32 → M) (m : M) : Stable ((varint32Field R number tag set).read m) :=
  h.map (set m)

theorem stable_messageField {N : Type} {parse : Parser N}
    (h : ∀ n, Stable (R.parseMessage parse n)) (number : UInt32) (tag : UInt8) (mutable : M → N)
    (set : M → N → M) (m : M) : Stable ((messageField R number tag parse mutable set).read m) :=
  (h (mutable m)).map (set m)

theorem writes_varint64 {number : UInt32} {tag : UInt8} {set : M → UInt64 → M}
    (hf : Expects fields (varint64Field R number tag set)) (htag : varint tag.toNat = [tag])
    {n : UInt64} (hn : (varint n.toNat).length ≤ maxSize) :
    Writes R fields [⟨tag.toUInt32, varint n.toNat⟩] fun m => set m n := by
  exact writes_item hf htag hn fun m rest hsize =>
    congrArg (Prod.map (set m) id) (R.readVarint64_varint n rest hsize)

theorem writes_varint32 {number : UInt32} {tag : UInt8} {set : M → UInt32 → M}
    (hf : Expects fields (varint32Field R number tag set)) (htag : varint tag.toNat = [tag])
    {n : UInt64} (hn : (varint n.toNat).length ≤ maxSize) :
    Writes R fields [⟨tag.toUInt32, varint n.toNat⟩] fun m => set m n.toUInt32 := by
  exact writes_item hf htag hn fun m rest hsize =>
    congrArg (Prod.map (set m) id) (R.readVarint32_varint n rest hsize)

/-- The bytes of a message within a message have the effect `e` on what they are read into. -/
theorem parseMessage_body {N : Type} {inner : List (WireField N)} {body : List UInt8} {e : N → N}
    (hbody : ReadsAs R inner body e) (hslop : body.length + slopBytes ≤ maxSize) (n : N)
    {rest : List UInt8} (hsize : (varint body.length ++ body ++ rest).length ≤ maxSize) :
    R.parseMessage (internalParse R inner) n (varint body.length ++ body ++ rest) =
      (e n, some rest) := by
  rw [List.append_assoc] at hsize ⊢
  exact R.parseMessage_limit _ n (e n) body rest hsize hslop
    (hbody.internalParse (Nat.le_of_add_right_le hslop) n)

theorem writes_message {N : Type} {inner : List (WireField N)} {number : UInt32} {tag : UInt8}
    {mutable : M → N} {set : M → N → M}
    (hf : Expects fields (messageField R number tag (internalParse R inner) mutable set))
    (htag : varint tag.toNat = [tag]) {body : List UInt8} {e : N → N}
    (hbody : ReadsAs R inner body e) (hslop : body.length + slopBytes ≤ maxSize)
    (hsize : (varint body.length ++ body).length ≤ maxSize) :
    Writes R fields [⟨tag.toUInt32, varint body.length ++ body⟩] fun m =>
      set m (e (mutable m)) := by
  exact writes_item hf htag hsize fun m _ hsize =>
    congrArg (Prod.map (set m) id) (parseMessage_body hbody hslop (mutable m) hsize)

theorem writes_repeated {N : Type} {inner : List (WireField N)} {number : UInt32} {tag : UInt8}
    {clear : N} {add : M → N → M}
    (hf : Expects fields (repeatedField R number tag (internalParse R inner) clear add))
    (htag : varint tag.toNat = [tag]) {body : List UInt8} {e : N → N}
    (hbody : ReadsAs R inner body e) (hslop : body.length + slopBytes ≤ maxSize)
    (hsize : (varint body.length ++ body).length ≤ maxSize) :
    Writes R fields [⟨tag.toUInt32, varint body.length ++ body⟩] fun m => add m (e clear) := by
  exact writes_item hf htag hsize fun m _ hsize =>
    congrArg (Prod.map (add m) id) (parseMessage_body hbody hslop clear hsize)

end Kinds

/-! ## The order of effects -/

section Order

variable {ι κ σ : Type*} {key : ι → κ} {act : σ → ι → σ}

/-- What commutes with all before it can be done first. -/
theorem foldl_append_cons_of_commute
    (hcomm : ∀ s a b, key a ≠ key b → act (act s a) b = act (act s b) a) {a : ι} {l l' : List ι}
    (hl : ∀ b ∈ l, key b ≠ key a) (s : σ) :
    (l ++ a :: l').foldl act s = (l ++ l').foldl act (act s a) := by
  induction l generalizing s with
  | nil => rfl
  | cons b l ih =>
    rw [List.cons_append, List.foldl_cons, ih fun c hc => hl c (List.mem_cons_of_mem b hc),
      hcomm s b a (hl b List.mem_cons_self)]
    rfl

/-- **The order does not matter** between actions under different keys that commute. -/
theorem foldl_eq_of_filter_eq [DecidableEq κ]
    (hcomm : ∀ s a b, key a ≠ key b → act (act s a) b = act (act s b) a) {l l' : List ι}
    (h : ∀ k, l.filter (key · = k) = l'.filter (key · = k)) (s : σ) :
    l.foldl act s = l'.foldl act s := by
  induction l generalizing l' s with
  | nil =>
    cases l' with
    | nil => rfl
    | cons a l' =>
      have ha := h (key a)
      simp at ha
  | cons a l ih =>
    have ha := h (key a)
    rw [List.filter_cons_of_pos (by simp)] at ha
    obtain ⟨l₁, l₂, rfl, hl₁, -, hl₂⟩ := List.filter_eq_cons_iff.mp ha.symm
    have hl₁ : ∀ b ∈ l₁, key b ≠ key a := by simpa using hl₁
    rw [foldl_append_cons_of_commute hcomm hl₁, List.foldl_cons]
    refine ih (fun k => ?_) (act s a)
    have hk := h k
    rw [List.filter_append, List.filter_cons, List.filter_cons] at hk
    rw [List.filter_append]
    split_ifs at hk with hka
    · have hka : key a = k := by simpa using hka
      have hnone : l₁.filter (key · = k) = [] := by
        rw [List.filter_eq_nil_iff]
        intro b hb
        simpa [← hka] using hl₁ b hb
      rw [hnone, List.nil_append] at hk ⊢
      exact (List.cons.inj hk).2
    · exact hk

end Order

/-- It does not matter which of the two fields is read first. -/
def WireField.Commutes (f g : WireField M) : Prop :=
  ∀ m p q, (g.read (f.read m p).1 q).1 = (f.read (g.read m q).1 p).1

instance : Std.Symm (WireField.Commutes (M := M)) :=
  ⟨fun _ _ h m p q => (h m q p).symm⟩

/-! ## The code for a message -/

/-- The code generated for the messages `M`: what it writes, item by item, what it reads, and how it
merges. -/
structure Message (R : Runtime varint) (M : Type) where
  /-- The message without fields. -/
  clear : M
  fields : List (WireField M)
  serialize : M → List UInt8
  byteSizeLong : M → ℕ
  mergeFrom : M → M → M
  items : M → List Item
  serialize_eq (m : M) : serialize m = (items m).flatMap (Item.bytes varint)
  byteSizeLong_eq (m : M) : byteSizeLong m = (serialize m).length
  writes (m : M) : Writes R fields (items m) fun m' => mergeFrom m' m
  mergeFrom_clear (m : M) : mergeFrom clear m = m
  commute : fields.Pairwise WireField.Commutes

namespace Message

variable (C : Message R M)

/-- `ParseFromArray`: what it returns, and the message as it is left. -/
def parse (bs : List UInt8) : Bool × M := parseFromArray R C.fields C.clear bs

/-- `CopyFrom` from another message. -/
def copyFrom (_ m : M) : M := C.mergeFrom C.clear m

variable {C}

theorem readsAs_serialize (m : M) :
    ReadsAs R C.fields (C.serialize m) fun m' => C.mergeFrom m' m := by
  rw [C.serialize_eq]
  exact (readsAs_flatMap (C.writes m).readsAs).congr (C.writes m).foldl_eq

theorem parse_serialize {m : M} (h : (C.serialize m).length ≤ maxSize) :
    C.parse (C.serialize m) = (true, m) := by
  rw [parse, (readsAs_serialize m).parseFromArray h, C.mergeFrom_clear]

theorem parse_append {m m' : M} (h : (C.serialize m ++ C.serialize m').length ≤ maxSize) :
    C.parse (C.serialize m ++ C.serialize m') = (true, C.mergeFrom m m') := by
  rw [parse, ((readsAs_serialize m).append (readsAs_serialize m')).parseFromArray h]
  simp only [Function.comp, C.mergeFrom_clear]

/-- Items for different fields commute. -/
theorem effect_comm (m : M) {a b : Item} (h : a.number? C.fields ≠ b.number? C.fields) :
    b.effect C.fields (a.effect C.fields m) = a.effect C.fields (b.effect C.fields m) := by
  unfold Item.number? at h
  unfold Item.effect
  cases ha : a.field? C.fields with
  | none => rfl
  | some f =>
    cases hb : b.field? C.fields with
    | none => rfl
    | some g =>
      rw [ha, hb, Option.map_some, Option.map_some] at h
      have hne : f ≠ g := fun heq => h (by rw [heq])
      exact C.commute.forall (List.mem_of_find?_eq_some ha) (List.mem_of_find?_eq_some hb) hne m
        a.payload b.payload

/-- Unknown items have no effect in a list either. -/
theorem foldl_known (its : List Item) (m : M) :
    (its.filter fun it => (it.number? C.fields).isSome).foldl (Item.effect C.fields) m =
      its.foldl (Item.effect C.fields) m := by
  induction its generalizing m with
  | nil => rfl
  | cons it its ih =>
    rw [List.filter_cons, List.foldl_cons]
    split_ifs with h
    · exact ih _
    · have hnone : it.field? C.fields = none := by simpa [Item.number?] using h
      have hm : it.effect C.fields m = m := by
        unfold Item.effect
        rw [hnone]
      rw [ih, hm]

/-- **Items in any order**: those for a field are the message's, in their order, and between them
may stand whatever is unknown. -/
theorem parse_items {m : M} {its : List Item}
    (hits : ∀ it ∈ its, it.Unknown varint C.fields ∨ (it.number? C.fields).isSome)
    (hfields : ∀ n, its.filter (Item.number? C.fields · = some n) =
      (C.items m).filter (Item.number? C.fields · = some n))
    (h : (its.flatMap (Item.bytes varint)).length ≤ maxSize) :
    C.parse (its.flatMap (Item.bytes varint)) = (true, m) := by
  have hreads : ∀ it ∈ its,
      ReadsAs R C.fields (it.bytes varint) fun m => it.effect C.fields m := by
    intro it hit
    rcases hits it hit with hunknown | hknown
    · exact hunknown.readsAs
    · obtain ⟨n, hn⟩ := Option.isSome_iff_exists.mp hknown
      have hmem : it ∈ its.filter (Item.number? C.fields · = some n) :=
        List.mem_filter.mpr ⟨hit, by simpa using hn⟩
      rw [hfields] at hmem
      exact (C.writes m).readsAs it (List.mem_filter.mp hmem).1
  have hfold : its.foldl (Item.effect C.fields) C.clear = m := by
    rw [← foldl_known, ← C.mergeFrom_clear m, ← (C.writes m).foldl_eq C.clear,
      ← foldl_known (C.items m)]
    refine foldl_eq_of_filter_eq
      (fun m a b (hab : a.number? C.fields ≠ b.number? C.fields) => effect_comm m hab)
      (fun k => ?_) C.clear
    rw [List.filter_filter, List.filter_filter]
    cases k with
    | none =>
      have hnone : ∀ l : List Item, l.filter (fun it =>
          decide (it.number? C.fields = none) && (it.number? C.fields).isSome) = [] := by
        intro l
        rw [List.filter_eq_nil_iff]
        intro it _
        cases it.number? C.fields <;> simp
      rw [hnone, hnone]
    | some n =>
      have hsome : ∀ l : List Item, l.filter (fun it =>
          decide (it.number? C.fields = some n) && (it.number? C.fields).isSome) =
            l.filter (Item.number? C.fields · = some n) := by
        intro l
        refine List.filter_congr fun it _ => ?_
        cases it.number? C.fields <;> simp
      rw [hsome, hsome, hfields]
  rw [parse, (readsAs_flatMap hreads).parseFromArray h, hfold]

end Message

end Lars.WireFormat
