import Mathlib.Data.List.Basic
import Lars.Foundations.Run

/-!
# Framed streams cut into chunks

Messages are sent one after another as frames (`encode`), and the receiver gets the stream
(`stream`) in chunks that know nothing of the frames. After `n` symbols the messages in
`whole ms n` have arrived completely and `unfinished ms n`, a strict prefix of the next frame, is
what remains of the symbols received (`take_stream`).

A chunk thus turns `unfinished ms n` into the frames of the messages it completes followed by the
new unfinished part (`unfinished_append`). A receiver that, on a buffer holding an unfinished part,
answers a chunk with the messages it completes and keeps the new unfinished part, answers a whole
run of chunks with `deliveries`: every message once, in order, with the chunk that completes it
(`flatten_deliveries`). `receiver_run` is the rule for receivers that are right on the chunks with
some `good` effect, `eachChunk_of_run` its converse.
-/

namespace Lars.Framing

variable {α β : Type*} (encode : α → List β)

/-- The frames of the messages, one after another. -/
def stream (ms : List α) : List β := ms.flatMap encode

/-- The messages whose frames are complete within the first `n` symbols of the stream. -/
def whole : List α → ℕ → List α
  | [], _ => []
  | m :: ms, n => if (encode m).length ≤ n then m :: whole ms (n - (encode m).length) else []

/-- What the first `n` symbols of the stream hold beyond the frames of `whole`. -/
def unfinished : List α → ℕ → List β
  | [], _ => []
  | m :: ms, n =>
    if (encode m).length ≤ n then unfinished ms (n - (encode m).length) else (encode m).take n

/-- A strict prefix of some message's frame, or nothing. -/
def Partial (ms : List α) (p : List β) : Prop :=
  p = [] ∨ ∃ m ∈ ms, ∃ t, t ≠ [] ∧ p ++ t = encode m

/-- The messages completed by each chunk, `n` symbols having been received before. -/
def deliveries (ms : List α) : ℕ → List (List β) → List (List α)
  | _, [] => []
  | n, c :: cs =>
    (whole encode ms (n + c.length)).drop (whole encode ms n).length ::
      deliveries ms (n + c.length) cs

/-- `good` holds of the messages each chunk completes and the unfinished part it leaves. -/
def EachChunk (good : List α → List β → Prop) (ms : List α) : ℕ → List (List β) → Prop
  | _, [] => True
  | n, c :: cs =>
    good ((whole encode ms (n + c.length)).drop (whole encode ms n).length)
      (unfinished encode ms (n + c.length)) ∧ EachChunk good ms (n + c.length) cs

instance instDecidableEachChunk (good : List α → List β → Prop) [∀ new p, Decidable (good new p)]
    (ms : List α) : ∀ (n : ℕ) (cs : List (List β)), Decidable (EachChunk encode good ms n cs)
  | _, [] => inferInstanceAs (Decidable True)
  | n, c :: cs =>
    have := instDecidableEachChunk good ms (n + c.length) cs
    inferInstanceAs (Decidable (_ ∧ _))

variable {encode}

@[simp] theorem stream_nil : stream encode [] = [] := rfl

@[simp] theorem stream_cons (m : α) (ms : List α) :
    stream encode (m :: ms) = encode m ++ stream encode ms := rfl

@[simp] theorem stream_append (ms ms' : List α) :
    stream encode (ms ++ ms') = stream encode ms ++ stream encode ms' := by
  simp [stream]

/-! ## The messages complete after a number of symbols -/

/-- The first `n` symbols are the frames of the complete messages and the unfinished part. -/
theorem take_stream (ms : List α) (n : ℕ) :
    (stream encode ms).take n = stream encode (whole encode ms n) ++ unfinished encode ms n := by
  induction ms generalizing n with
  | nil => simp [whole, unfinished]
  | cons m ms ih =>
    by_cases h : (encode m).length ≤ n
    · simp only [whole, unfinished, h, if_true, stream_cons, List.append_assoc, ← ih]
      rw [List.take_append, List.take_of_length_le h]
    · simp only [whole, unfinished, h, if_false, stream_cons, stream_nil, List.nil_append]
      exact List.take_append_of_le_length (by omega)

theorem partial_unfinished (ms : List α) (n : ℕ) :
    Partial encode ms (unfinished encode ms n) := by
  induction ms generalizing n with
  | nil => exact Or.inl rfl
  | cons m ms ih =>
    by_cases h : (encode m).length ≤ n
    · simp only [unfinished, h, if_true]
      rcases ih (n - (encode m).length) with hnil | ⟨m', hm', t, ht, hp⟩
      · exact Or.inl hnil
      · exact Or.inr ⟨m', List.mem_cons_of_mem _ hm', t, ht, hp⟩
    · simp only [unfinished, h, if_false]
      refine Or.inr ⟨m, List.mem_cons_self, (encode m).drop n, ?_, List.take_append_drop _ _⟩
      rw [Ne, List.drop_eq_nil_iff]
      omega

theorem whole_subset (ms : List α) (n : ℕ) : whole encode ms n ⊆ ms := by
  induction ms generalizing n with
  | nil => simp [whole]
  | cons m ms ih =>
    rw [whole]
    split_ifs
    · exact List.cons_subset_cons m (ih _)
    · exact List.nil_subset _

/-- More symbols complete more messages, after the ones already complete. -/
theorem whole_isPrefix (ms : List α) {n n' : ℕ} (h : n ≤ n') :
    whole encode ms n <+: whole encode ms n' := by
  induction ms generalizing n n' with
  | nil => exact List.prefix_refl _
  | cons m ms ih =>
    by_cases hm : (encode m).length ≤ n
    · simp only [whole, hm, Nat.le_trans hm h, if_true]
      exact List.cons_prefix_cons.mpr ⟨rfl, ih (by omega)⟩
    · simp only [whole, hm, if_false]
      exact List.nil_prefix

theorem whole_append_new (ms : List α) (n k : ℕ) :
    whole encode ms n ++ (whole encode ms (n + k)).drop (whole encode ms n).length =
      whole encode ms (n + k) := by
  obtain ⟨t, ht⟩ : whole encode ms n <+: whole encode ms (n + k) :=
    whole_isPrefix ms (Nat.le_add_right n k)
  rw [← ht, List.drop_left]

theorem whole_stream_length (ms : List α) : whole encode ms (stream encode ms).length = ms := by
  induction ms with
  | nil => rfl
  | cons m ms ih => simp [whole, ih]

theorem unfinished_stream_length (ms : List α) :
    unfinished encode ms (stream encode ms).length = [] := by
  induction ms with
  | nil => rfl
  | cons m ms ih => simp [unfinished, ih]

@[simp] theorem unfinished_zero (ms : List α) : unfinished encode ms 0 = [] := by
  induction ms with
  | nil => rfl
  | cons m ms ih => simp [unfinished, ih]

theorem whole_zero (hne : ∀ m, encode m ≠ []) (ms : List α) : whole encode ms 0 = [] := by
  cases ms with
  | nil => rfl
  | cons m ms => simp [whole, hne m]

/-! ## The effect of a chunk -/

/-- A chunk turns the unfinished part into the frames it completes and a new unfinished part. -/
theorem unfinished_append (ms : List α) (n : ℕ) {c later : List β}
    (h : (stream encode ms).drop n = c ++ later) :
    unfinished encode ms n ++ c =
      stream encode ((whole encode ms (n + c.length)).drop (whole encode ms n).length) ++
        unfinished encode ms (n + c.length) := by
  have htake : (stream encode ms).take (n + c.length) = (stream encode ms).take n ++ c := by
    rw [List.take_add, h, List.take_left]
  rw [take_stream, take_stream, ← whole_append_new ms n c.length, stream_append,
    List.append_assoc, List.append_assoc] at htake
  exact (List.append_cancel_left htake).symm

theorem drop_append_drop {l₁ l₂ l₃ : List α} (h₁₂ : l₁ <+: l₂) (h₂₃ : l₂ <+: l₃) :
    l₂.drop l₁.length ++ l₃.drop l₂.length = l₃.drop l₁.length := by
  obtain ⟨t, rfl⟩ := h₁₂
  obtain ⟨u, rfl⟩ := h₂₃
  rw [List.drop_left, List.drop_left, List.append_assoc, List.drop_left]

theorem drop_of_drop_eq_append {l c later : List β} {n : ℕ} (h : l.drop n = c ++ later) :
    l.drop (n + c.length) = later := by
  rw [← List.drop_drop, h, List.drop_left]

/-- Over a run of chunks every message that arrives is delivered once, in order. -/
theorem flatten_deliveries (ms : List α) (cs : List (List β)) (n : ℕ) :
    (deliveries encode ms n cs).flatten =
      (whole encode ms (n + cs.flatten.length)).drop (whole encode ms n).length := by
  induction cs generalizing n with
  | nil => simp [deliveries]
  | cons c cs ih =>
    rw [deliveries, List.flatten_cons, ih, List.flatten_cons, List.length_append, ← Nat.add_assoc]
    exact drop_append_drop (whole_isPrefix ms (Nat.le_add_right _ _))
      (whole_isPrefix ms (Nat.le_add_right _ _))

/-- All chunks of a stream deliver all its messages. -/
theorem flatten_deliveries_stream (hne : ∀ m, encode m ≠ []) (ms : List α) {cs : List (List β)}
    (h : cs.flatten = stream encode ms) : (deliveries encode ms 0 cs).flatten = ms := by
  rw [flatten_deliveries, whole_zero hne, h, Nat.zero_add, whole_stream_length, List.length_nil,
    List.drop_zero]

/-! ## Receivers -/

section Receiver

variable {σ ε τ : Type*} {step : σ → ε → Except τ (List α × σ)} {chunk : ε → List β}
  {ok : σ → ε → Prop} {holds : σ → List β → Prop} {good : List α → List β → Prop}

open Machine

/-- What a chunk does to a receiver of the stream: the rule's hypotheses are about this. -/
theorem chunk_effect {ms : List α} {n : ℕ} {c rest : List β}
    (h : (stream encode ms).drop n = c ++ rest) :
    (whole encode ms (n + c.length)).drop (whole encode ms n).length ⊆ ms ∧
      Partial encode ms (unfinished encode ms (n + c.length)) ∧
      unfinished encode ms n ++ c =
        stream encode ((whole encode ms (n + c.length)).drop (whole encode ms n).length) ++
          unfinished encode ms (n + c.length) :=
  ⟨fun _ hx => whole_subset ms _ (List.mem_of_mem_drop hx), partial_unfinished ms _,
    unfinished_append ms n h⟩

/-- **Receivers of framed streams.** A receiver whose state holds an unfinished part and that, on
a chunk whose effect is `good`, answers with the messages completed and holds the new unfinished
part, answers a run of chunks whose effects are all `good` with `deliveries`, and holds the
unfinished part at the end. -/
theorem receiver_run {ms : List α}
    (hgood : ∀ s e p new p', holds s p → ok s e → new ⊆ ms → Partial encode ms p' →
      p ++ chunk e = stream encode new ++ p' → good new p' →
      ∃ s', step s e = .ok (new, s') ∧ holds s' p') :
    ∀ {es : List ε} {s : σ} {n : ℕ} {later : List β},
      (stream encode ms).drop n = (es.map chunk).flatten ++ later →
      holds s (unfinished encode ms n) → Along step ok s es →
      EachChunk encode good ms n (es.map chunk) →
      ∃ s', run step s es = .ok (deliveries encode ms n (es.map chunk), s') ∧
        holds s' (unfinished encode ms (n + (es.map chunk).flatten.length))
  | [], s, n, later, _, hs, _, _ => ⟨s, rfl, hs⟩
  | e :: es, s, n, later, h, hs, hok, hg => by
    rw [List.map_cons, List.flatten_cons, List.append_assoc] at h
    obtain ⟨hsub, hpart, heff⟩ := chunk_effect h
    obtain ⟨s', hstep, hs'⟩ := hgood s e _ _ _ hs hok.1 hsub hpart heff hg.1
    obtain ⟨s'', hrun, hs''⟩ :=
      receiver_run hgood (drop_of_drop_eq_append h) hs' (hok.2 _ s' hstep) hg.2
    rw [List.map_cons, List.flatten_cons, List.length_append, ← Nat.add_assoc]
    exact ⟨s'', run_cons_eq_ok.mpr ⟨_, s', _, hstep, hrun, rfl⟩, hs''⟩

/-- A receiver that moreover does not answer so on a chunk whose effect is not `good` answers a run
of chunks with `deliveries` only if the effects of all are `good`. -/
theorem eachChunk_of_run {ms : List α}
    (hgood : ∀ s e p new p', holds s p → ok s e → new ⊆ ms → Partial encode ms p' →
      p ++ chunk e = stream encode new ++ p' → good new p' →
      ∃ s', step s e = .ok (new, s') ∧ holds s' p')
    (hbad : ∀ s e p new p', holds s p → ok s e → new ⊆ ms → Partial encode ms p' →
      p ++ chunk e = stream encode new ++ p' → ¬ good new p' →
      ∀ s', step s e ≠ .ok (new, s')) :
    ∀ {es : List ε} {s s'' : σ} {n : ℕ} {later : List β},
      (stream encode ms).drop n = (es.map chunk).flatten ++ later →
      holds s (unfinished encode ms n) → Along step ok s es →
      run step s es = .ok (deliveries encode ms n (es.map chunk), s'') →
      EachChunk encode good ms n (es.map chunk)
  | [], _, _, _, _, _, _, _, _ => trivial
  | e :: es, s, s'', n, later, h, hs, hok, hrun => by
    rw [List.map_cons, List.flatten_cons, List.append_assoc] at h
    obtain ⟨hsub, hpart, heff⟩ := chunk_effect h
    obtain ⟨o, s', os, hstep, hrun', hos⟩ := run_cons_eq_ok.mp hrun
    obtain ⟨rfl, rfl⟩ := List.cons.inj hos
    by_cases hg : good ((whole encode ms (n + (chunk e).length)).drop (whole encode ms n).length)
        (unfinished encode ms (n + (chunk e).length))
    · obtain ⟨t, ht, hs'⟩ := hgood s e _ _ _ hs hok.1 hsub hpart heff hg
      obtain ⟨-, rfl⟩ := Prod.mk.inj (Except.ok.inj (ht.symm.trans hstep))
      exact ⟨hg, eachChunk_of_run hgood hbad (drop_of_drop_eq_append h) hs' (hok.2 _ t ht) hrun'⟩
    · exact absurd hstep (hbad s e _ _ _ hs hok.1 hsub hpart heff hg s')

theorem eachChunk_true (ms : List α) : ∀ (cs : List (List β)) (n : ℕ),
    EachChunk encode (fun _ _ => True) ms n cs
  | [], _ => trivial
  | _ :: cs, _ => ⟨trivial, eachChunk_true ms cs _⟩

end Receiver

end Lars.Framing
