import Mathlib.Order.Basic

/-!
# Loops with a measure

The body of a `while` loop either stops with an error, leaves the loop with a result, or goes on in
a new state. `iterate` runs a body for a number of passes, without a result when they are used up.
A body that decreases a natural number with every pass needs at most as many passes as the number
says (`iterate_isSome`); `loop` is its loop, and satisfies the loop's equation (`loop_eq`).
-/

namespace Lars.Machine

/-- The outcome of a pass through the body of a loop. -/
inductive Pass (σ ρ : Type*)
  /-- Go on in the state `s`. -/
  | next (s : σ)
  /-- Leave the loop with the result `r`. -/
  | leave (r : ρ)

variable {σ ρ τ : Type*} (body : σ → Except τ (Pass σ ρ))

/-- The loop run for at most `n` passes. -/
def iterate : ℕ → σ → Option (Except τ ρ)
  | 0, _ => none
  | n + 1, s =>
    match body s with
    | .error t => some (.error t)
    | .ok (.leave r) => some (.ok r)
    | .ok (.next s') => iterate n s'

/-- Every pass that goes on decreases the measure `μ`. -/
def Decreases (μ : σ → ℕ) : Prop := ∀ s s', body s = .ok (.next s') → μ s' < μ s

variable {body}

theorem iterate_isSome {μ : σ → ℕ} (h : Decreases body μ) :
    ∀ {n : ℕ} {s : σ}, μ s < n → (iterate body n s).isSome
  | n + 1, s, hn => by
    rw [iterate]
    split
    · rfl
    · rfl
    · rename_i s' hs
      have := h s s' hs
      exact iterate_isSome h (by omega)

/-- Passes beyond those needed change nothing. -/
theorem iterate_eq_of_le {n m : ℕ} (hnm : n ≤ m) {s : σ} (h : (iterate body n s).isSome) :
    iterate body m s = iterate body n s := by
  induction n generalizing m s with
  | zero => simp [iterate] at h
  | succ n ih =>
    obtain ⟨m, rfl⟩ : ∃ k, m = k + 1 := ⟨m - 1, by omega⟩
    rw [iterate] at h ⊢
    rw [iterate]
    split at h
    · rfl
    · rfl
    · exact ih (by omega) h

/-- The loop of a body with a measure. -/
def loop (body : σ → Except τ (Pass σ ρ)) {μ : σ → ℕ} (h : Decreases body μ) (s : σ) :
    Except τ ρ :=
  (iterate body (μ s + 1) s).get (iterate_isSome h (Nat.lt_succ_self _))

theorem some_loop {μ : σ → ℕ} (h : Decreases body μ) (s : σ) :
    some (loop body h s) = iterate body (μ s + 1) s := Option.some_get _

/-- **The equation of a loop**: the body, and the loop again if the body goes on. -/
theorem loop_eq {μ : σ → ℕ} (h : Decreases body μ) (s : σ) :
    loop body h s =
      match body s with
      | .error t => .error t
      | .ok (.leave r) => .ok r
      | .ok (.next s') => loop body h s' := by
  apply Option.some.inj
  rw [some_loop, iterate]
  cases hb : body s with
  | error t => rfl
  | ok o =>
    cases o with
    | leave r => rfl
    | next s' =>
      have hlt := h s s' hb
      have hs' : (iterate body (μ s' + 1) s').isSome := iterate_isSome h (Nat.lt_succ_self _)
      exact (iterate_eq_of_le hlt hs').trans (some_loop h s').symm

theorem loop_error {μ : σ → ℕ} (h : Decreases body μ) {s : σ} {t : τ} (hs : body s = .error t) :
    loop body h s = .error t := by
  rw [loop_eq, hs]

theorem loop_leave {μ : σ → ℕ} (h : Decreases body μ) {s : σ} {r : ρ}
    (hs : body s = .ok (.leave r)) : loop body h s = .ok r := by
  rw [loop_eq, hs]

theorem loop_next {μ : σ → ℕ} (h : Decreases body μ) {s s' : σ} (hs : body s = .ok (.next s')) :
    loop body h s = loop body h s' := by
  rw [loop_eq, hs]

/-- **The rule for loops**: what holds before the loop and is kept by every pass that goes on holds
before the pass that leaves, so `Q` holds of the result if that pass gives it. -/
theorem loop_invariant {μ : σ → ℕ} (h : Decreases body μ) {I : σ → Prop} {Q : ρ → Prop}
    (hnext : ∀ s s', I s → body s = .ok (.next s') → I s')
    (hleave : ∀ s r, I s → body s = .ok (.leave r) → Q r) {s : σ} {r : ρ} (hs : I s)
    (hr : loop body h s = .ok r) : Q r := by
  rw [loop_eq] at hr
  cases hb : body s with
  | error t => simp [hb] at hr
  | ok o =>
    cases o with
    | leave r' =>
      simp only [hb, Except.ok.injEq] at hr
      exact hr ▸ hleave s r' hs hb
    | next s' =>
      have hlt := h s s' hb
      simp only [hb] at hr
      exact loop_invariant h hnext hleave (hnext s s' hs hb) hr
termination_by μ s

/-- The states in which the passes of a loop start. -/
inductive Reaches (body : σ → Except τ (Pass σ ρ)) : σ → σ → Prop
  | refl (s : σ) : Reaches body s s
  | next {s s' s'' : σ} (h : body s = .ok (.next s')) (h' : Reaches body s' s'') :
    Reaches body s s''

theorem Reaches.invariant {I : σ → Prop} (hnext : ∀ s s', I s → body s = .ok (.next s') → I s')
    {s s' : σ} (h : Reaches body s s') (hs : I s) : I s' := by
  induction h with
  | refl s => exact hs
  | next hb _ ih => exact ih (hnext _ _ hs hb)

theorem Reaches.snoc {s s' s'' : σ} (h : Reaches body s s') (hb : body s' = .ok (.next s'')) :
    Reaches body s s'' := by
  induction h with
  | refl s => exact .next hb (.refl s'')
  | next h _ ih => exact .next h (ih hb)

/-- A loop returns if and only if it reaches a pass that leaves. -/
theorem exists_iterate_eq_ok {s : σ} {r : ρ} :
    (∃ n, iterate body n s = some (.ok r)) ↔
      ∃ s', Reaches body s s' ∧ body s' = .ok (.leave r) := by
  constructor
  · rintro ⟨n, hn⟩
    induction n generalizing s with
    | zero => cases hn
    | succ n ih =>
      rw [iterate] at hn
      split at hn
      · cases hn
      · next r' hb =>
        cases hn
        exact ⟨s, .refl s, hb⟩
      · next s' hb =>
        obtain ⟨s'', hreach, hleave⟩ := ih hn
        exact ⟨s'', .next hb hreach, hleave⟩
  · rintro ⟨s', hreach, hleave⟩
    induction hreach with
    | refl s => exact ⟨1, by rw [iterate, hleave]⟩
    | next hb _ ih =>
      obtain ⟨n, hn⟩ := ih hleave
      exact ⟨n + 1, by rw [iterate, hb]; exact hn⟩

/-- **The total rule for loops**: under the invariant every pass goes on in the invariant or leaves
with a result in `Q`, so the loop gives a result in `Q`. -/
theorem loop_total {μ : σ → ℕ} (h : Decreases body μ) {I : σ → Prop} {Q : ρ → Prop}
    (hpass : ∀ s, I s → (∃ s', body s = .ok (.next s') ∧ I s') ∨
      ∃ r, body s = .ok (.leave r) ∧ Q r) {s : σ} (hs : I s) :
    ∃ r, loop body h s = .ok r ∧ Q r := by
  rcases hpass s hs with ⟨s', hb, hs'⟩ | ⟨r, hb, hr⟩
  · have hlt := h s s' hb
    rw [loop_next h hb]
    exact loop_total h hpass hs'
  · exact ⟨r, loop_leave h hb, hr⟩
termination_by μ s

end Lars.Machine
