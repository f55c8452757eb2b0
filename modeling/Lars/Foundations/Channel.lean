import Lars.Foundations.Framing

/-!
# A channel of frames

The sender puts frames into a buffer, one behind another; symbols go from the front of the buffer
onto the wire, and from the front of the wire, in chunks, to the receiver. `Channel` says where the
symbols of the messages sent so far are when `n` of them have been received.

Whatever is put in, moved on and taken off next (`Channel.send`, `Channel.write`, `Channel.read`),
the messages received completely are the first of those sent (`whole_isPrefix_self`), and all of
them once buffer and wire are empty (`Channel.complete`).
-/

namespace Lars.Framing

variable {α β : Type*} (encode : α → List β)

/-- Of the frames sent, `n` symbols have been received; the others are on the wire or in the
buffer. -/
structure Channel (sent : List α) (buffer wire : List β) (n : ℕ) : Prop where
  le : n ≤ (stream encode sent).length
  drop_eq : (stream encode sent).drop n = wire ++ buffer

variable {encode}

theorem whole_isPrefix_self (ms : List α) (n : ℕ) : whole encode ms n <+: ms := by
  induction ms generalizing n with
  | nil => exact List.prefix_refl _
  | cons m ms ih =>
    rw [whole]
    split_ifs
    · exact List.cons_prefix_cons.mpr ⟨rfl, ih _⟩
    · exact List.nil_prefix

/-- Messages sent later complete nothing. -/
theorem whole_append (hne : ∀ m, encode m ≠ []) {ms : List α} (ms' : List α) {n : ℕ}
    (h : n ≤ (stream encode ms).length) : whole encode (ms ++ ms') n = whole encode ms n := by
  induction ms generalizing n with
  | nil =>
    obtain rfl : n = 0 := Nat.le_zero.mp h
    exact whole_zero hne ms'
  | cons m ms ih =>
    rw [stream_cons, List.length_append] at h
    rw [List.cons_append, whole, whole, ih (by omega)]

theorem unfinished_append_messages {ms : List α} (ms' : List α) {n : ℕ}
    (h : n ≤ (stream encode ms).length) :
    unfinished encode (ms ++ ms') n = unfinished encode ms n := by
  induction ms generalizing n with
  | nil =>
    obtain rfl : n = 0 := Nat.le_zero.mp h
    rw [List.nil_append, unfinished_zero, unfinished_zero]
  | cons m ms ih =>
    rw [stream_cons, List.length_append] at h
    rw [List.cons_append, unfinished, unfinished, ih (by omega)]

namespace Channel

variable {sent : List α} {buffer wire : List β} {n : ℕ}

theorem start : Channel encode [] [] [] 0 := ⟨Nat.le_refl 0, rfl⟩

/-- Messages are sent: their frames are behind the others. -/
theorem send (h : Channel encode sent buffer wire n) (ms : List α) :
    Channel encode (sent ++ ms) (buffer ++ stream encode ms) wire n where
  le := by
    rw [stream_append, List.length_append]
    exact Nat.le_add_right_of_le h.le
  drop_eq := by
    rw [stream_append, List.drop_append_of_le_length h.le, h.drop_eq, List.append_assoc]

/-- Symbols go onto the wire. -/
theorem write {l buffer' : List β} (h : Channel encode sent buffer wire n)
    (hl : l ++ buffer' = buffer) : Channel encode sent buffer' (wire ++ l) n where
  le := h.le
  drop_eq := by rw [h.drop_eq, ← hl, List.append_assoc]

/-- A chunk is received. -/
theorem read {c wire' : List β} (h : Channel encode sent buffer wire n) (hc : wire = c ++ wire') :
    Channel encode sent buffer wire' (n + c.length) where
  le := by
    have hlen := congrArg List.length h.drop_eq
    have hle := h.le
    rw [hc, List.length_drop, List.length_append, List.length_append] at hlen
    omega
  drop_eq := by
    rw [← List.drop_drop, h.drop_eq, hc, List.append_assoc, List.drop_left]

/-- **Nothing is under way**: everything has been received. -/
theorem complete (h : Channel encode sent [] [] n) :
    whole encode sent n = sent ∧ unfinished encode sent n = [] := by
  obtain rfl : n = (stream encode sent).length :=
    Nat.le_antisymm h.le (List.drop_eq_nil_iff.mp h.drop_eq)
  exact ⟨whole_stream_length sent, unfinished_stream_length sent⟩

end Channel

end Lars.Framing
