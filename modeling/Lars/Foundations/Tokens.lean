import Mathlib.Data.List.Induction
import Mathlib.Data.List.Sort
import Mathlib.Order.Nat

/-!
# Tokens

The tokens of a list are its maximal runs of elements that are not separators, in order. They are
defined by where they are (`IsRun`, `IsTokens`), so that nothing is said about how to find them.

`IsTokens.snoc` is the rule for a scan from left to right: a word, and the gap of separators after
it, add a token to those of what is before it, unless that ends in a word itself.
-/

namespace Lars.Tokens

universe u

/-! ## Runs -/

/-- From `i` up to `j`, and not further in either direction, all numbers have `P`. -/
structure IsRun (P : ℕ → Prop) (i j : ℕ) : Prop where
  lt : i < j
  all : ∀ k, i ≤ k → k < j → P k
  left : ∀ k, k + 1 = i → ¬ P k
  right : ¬ P j

variable {P Q : ℕ → Prop} {i j k n m : ℕ}

theorem IsRun.first (h : IsRun P i j) : P i := h.all i le_rfl h.lt

/-- All numbers of a run are below a bound of `P`. -/
theorem IsRun.le (h : IsRun P i j) (hP : ∀ k, P k → k < n) : j ≤ n :=
  Nat.le_of_pred_lt (hP _ (h.all (j - 1) (Nat.le_sub_one_of_lt h.lt) (Nat.sub_one_lt_of_lt h.lt)))

/-- The runs of `Q` and an interval from `n` on, if `Q` is below `n` and does not reach it. -/
theorem isRun_or_interval (hPQ : ∀ k, P k ↔ Q k ∨ n ≤ k ∧ k < n + m) (hQ : ∀ k, Q k → k < n)
    (hn : ∀ k, k + 1 = n → ¬ Q k) (hm : 0 < m) :
    IsRun P i j ↔ IsRun Q i j ∨ i = n ∧ j = n + m := by
  constructor
  · intro h
    have hright := mt (hPQ j).mpr h.right
    rcases Nat.lt_or_ge i n with hi | hi
    · -- The run does not go on into the interval, since `Q` does not hold of the number before it.
      have hj : j ≤ n := by
        by_contra hj
        rcases (hPQ (n - 1)).mp (h.all (n - 1) (by omega) (by omega)) with hlast | ⟨hle, -⟩
        · exact hn (n - 1) (by omega) hlast
        · omega
      refine Or.inl ⟨h.lt, fun k hik hkj => ?_, fun k hk hQk => ?_, fun hQj => ?_⟩
      · exact ((hPQ k).mp (h.all k hik hkj)).resolve_right (by omega)
      · exact h.left k hk ((hPQ k).mpr (Or.inl hQk))
      · exact hright (Or.inl hQj)
    · have hfirst : i < n + m := by
        rcases (hPQ i).mp h.first with hQi | ⟨-, hlt⟩
        · exact absurd (hQ i hQi) hi.not_gt
        · exact hlt
      have hin : i = n := by
        by_contra hne
        exact h.left (i - 1) (by omega) ((hPQ _).mpr (Or.inr ⟨by omega, by omega⟩))
      have hle : j ≤ n + m := h.le fun k hk =>
        ((hPQ k).mp hk).elim (fun hQk => Nat.lt_add_right m (hQ k hQk)) And.right
      have hlt := h.lt
      exact Or.inr ⟨hin, by omega⟩
  · rintro (h | ⟨rfl, rfl⟩)
    · have hj : j ≤ n := h.le hQ
      have hlt := h.lt
      refine ⟨h.lt, fun k hik hkj => (hPQ k).mpr (Or.inl (h.all k hik hkj)), fun k hk hPk => ?_,
        fun hPj => ?_⟩
      · exact h.left k hk (((hPQ k).mp hPk).resolve_right (by omega))
      · rcases (hPQ j).mp hPj with hQj | ⟨hle, -⟩
        · exact h.right hQj
        · exact hn (j - 1) (by omega) (h.all (j - 1) (by omega) (by omega))
    · refine ⟨Nat.lt_add_of_pos_right hm, fun k hik hkj => (hPQ k).mpr (Or.inr ⟨hik, hkj⟩),
        fun k hk hPk => ?_, fun hPj => ?_⟩
      · rcases (hPQ k).mp hPk with hQk | ⟨hle, -⟩
        · exact hn k hk hQk
        · omega
      · rcases (hPQ _).mp hPj with hQj | ⟨-, hlt⟩
        · exact absurd (hQ _ hQj) (by omega)
        · omega

variable {α : Type u} (sep : α → Bool)

/-- At `k` there is an element that is not a separator. -/
def WordAt (l : List α) (k : ℕ) : Prop := ∃ c, l[k]? = some c ∧ sep c = false

/-- The runs of `l`, by where they start and end, in order. -/
structure IsRuns (l : List α) (ps : List (ℕ × ℕ)) : Prop where
  sorted : ps.Pairwise fun p q => p.1 < q.1
  mem_iff : ∀ i j, (i, j) ∈ ps ↔ IsRun (WordAt sep l) i j

/-- The tokens of `l`: what is in its runs. -/
def IsTokens (l : List α) (v : List (List α)) : Prop :=
  ∃ ps, IsRuns sep l ps ∧ v = ps.map fun p => (l.drop p.1).take (p.2 - p.1)

/-- The list is empty or its last element is a separator. -/
def EndsInGap (l : List α) : Prop := ∀ k, k + 1 = l.length → ¬ WordAt sep l k

variable {sep} {l l' w g : List α} {v : List (List α)}

/-! ## Words -/

theorem WordAt.lt (h : WordAt sep l k) : k < l.length := by
  obtain ⟨c, hc, -⟩ := h
  exact (List.getElem?_eq_some_iff.mp hc).1

theorem wordAt_append :
    WordAt sep (l ++ l') k ↔ WordAt sep l k ∨ ∃ m, k = l.length + m ∧ WordAt sep l' m := by
  constructor
  · rintro ⟨c, hc, hsep⟩
    rcases Nat.lt_or_ge k l.length with hk | hk
    · rw [List.getElem?_append_left hk] at hc
      exact Or.inl ⟨c, hc, hsep⟩
    · rw [List.getElem?_append_right hk] at hc
      exact Or.inr ⟨k - l.length, (Nat.add_sub_cancel' hk).symm, c, hc, hsep⟩
  · rintro (h | ⟨m, rfl, c, hc, hsep⟩)
    · have hk := h.lt
      obtain ⟨c, hc, hsep⟩ := h
      exact ⟨c, by rw [List.getElem?_append_left hk, hc], hsep⟩
    · refine ⟨c, ?_, hsep⟩
      rw [List.getElem?_append_right (Nat.le_add_right _ _), Nat.add_sub_cancel_left, hc]

theorem wordAt_word (hw : ∀ c ∈ w, sep c = false) : WordAt sep w k ↔ k < w.length := by
  refine ⟨WordAt.lt, fun hk => ⟨w[k], List.getElem?_eq_getElem hk, ?_⟩⟩
  exact hw _ (List.getElem_mem hk)

theorem not_wordAt_gap (hg : ∀ c ∈ g, sep c = true) : ¬ WordAt sep g k := by
  rintro ⟨c, hc, hsep⟩
  rw [hg c (List.mem_of_getElem? hc)] at hsep
  cases hsep

/-- The words of a list with another word and a gap after it. -/
theorem wordAt_snoc (hw : ∀ c ∈ w, sep c = false) (hg : ∀ c ∈ g, sep c = true) :
    WordAt sep (l ++ (w ++ g)) k ↔
      WordAt sep l k ∨ l.length ≤ k ∧ k < l.length + w.length := by
  rw [wordAt_append]
  refine or_congr_right ⟨?_, fun ⟨hle, hlt⟩ => ?_⟩
  · rintro ⟨m, rfl, h⟩
    rcases wordAt_append.mp h with hm | ⟨m', -, hm⟩
    · exact ⟨Nat.le_add_right _ _, Nat.add_lt_add_left hm.lt _⟩
    · exact absurd hm (not_wordAt_gap hg)
  · have hm : k - l.length < w.length := by omega
    exact ⟨k - l.length, (Nat.add_sub_cancel' hle).symm,
      wordAt_append.mpr (Or.inl ((wordAt_word hw).mpr hm))⟩

theorem IsRun.le_length (h : IsRun (WordAt sep l) i j) : j ≤ l.length := h.le fun _ => WordAt.lt

/-! ## Tokens -/

/-- A gap has no tokens. -/
theorem isTokens_gap (hg : ∀ c ∈ g, sep c = true) : IsTokens sep g [] := by
  refine ⟨[], ⟨List.Pairwise.nil, fun i j => iff_of_false List.not_mem_nil fun h => ?_⟩, rfl⟩
  exact not_wordAt_gap hg h.first

theorem endsInGap_gap (hg : ∀ c ∈ g, sep c = true) : EndsInGap sep g :=
  fun _ _ => not_wordAt_gap hg

/-- A list that has a gap at its end. -/
theorem endsInGap_append (hne : g ≠ []) (hg : ∀ c ∈ g, sep c = true) : EndsInGap sep (l ++ g) := by
  intro k hk hword
  have hpos := List.length_pos_iff.mpr hne
  rw [List.length_append] at hk
  rcases wordAt_append.mp hword with h | ⟨m, -, h⟩
  · have := h.lt
    omega
  · exact not_wordAt_gap hg h

/-- **The rule for scans**: a word and the gap after it. -/
theorem IsTokens.snoc (h : IsTokens sep l v) (hl : EndsInGap sep l) (hne : w ≠ [])
    (hw : ∀ c ∈ w, sep c = false) (hg : ∀ c ∈ g, sep c = true) :
    IsTokens sep (l ++ (w ++ g)) (v ++ [w]) := by
  obtain ⟨ps, hps, rfl⟩ := h
  have hruns : ∀ i j, IsRun (WordAt sep (l ++ (w ++ g))) i j ↔
      IsRun (WordAt sep l) i j ∨ i = l.length ∧ j = l.length + w.length := fun i j =>
    isRun_or_interval (fun k => wordAt_snoc hw hg) (fun k => WordAt.lt) hl
      (List.length_pos_iff.mpr hne)
  have hold : ∀ p ∈ ps, IsRun (WordAt sep l) p.1 p.2 := fun p hp => (hps.mem_iff _ _).mp hp
  refine ⟨ps ++ [(l.length, l.length + w.length)], ⟨?_, fun i j => ?_⟩, ?_⟩
  · refine List.pairwise_append.mpr ⟨hps.sorted, List.pairwise_singleton _ _, ?_⟩
    intro p hp q hq
    rw [List.mem_singleton.mp hq]
    exact (hold p hp).first.lt
  · rw [hruns, List.mem_append, List.mem_singleton, hps.mem_iff, Prod.mk.injEq]
  · rw [List.map_append, List.map_singleton, List.drop_left, Nat.add_sub_cancel_left,
      List.take_left]
    congr 1
    refine List.map_congr_left fun p hp => ?_
    have hlt := (hold p hp).lt
    have hle := (hold p hp).le_length
    rw [List.drop_append_of_le_length (by omega), List.take_append_of_le_length]
    rw [List.length_drop]
    omega

/-- No token is empty. -/
theorem IsTokens.nil_notMem (h : IsTokens sep l v) : [] ∉ v := by
  obtain ⟨ps, hps, rfl⟩ := h
  intro hmem
  obtain ⟨p, hp, hnil⟩ := List.mem_map.mp hmem
  have hrun := (hps.mem_iff p.1 p.2).mp hp
  have hlt := hrun.lt
  have hle := hrun.le_length
  have hlen := congrArg List.length hnil
  rw [List.length_take, List.length_drop, List.length_nil] at hlen
  omega

/-- A list has one list of tokens. -/
theorem IsTokens.unique {v' : List (List α)} (h : IsTokens sep l v) (h' : IsTokens sep l v') :
    v = v' := by
  obtain ⟨ps, hps, rfl⟩ := h
  obtain ⟨ps', hps', rfl⟩ := h'
  have hmem : ∀ p, p ∈ ps ↔ p ∈ ps' := fun p => (hps.mem_iff p.1 p.2).trans (hps'.mem_iff _ _).symm
  have hnodup : ∀ {qs : List (ℕ × ℕ)}, (qs.Pairwise fun p q => p.1 < q.1) → qs.Nodup := fun hqs =>
    hqs.imp fun hlt heq => hlt.ne (congrArg Prod.fst heq)
  have hperm : ps.Perm ps' :=
    (List.perm_ext_iff_of_nodup (hnodup hps.sorted) (hnodup hps'.sorted)).mpr hmem
  rw [hperm.eq_of_pairwise (fun p q _ _ hpq hqp => absurd hqp hpq.asymm) hps.sorted hps'.sorted]

/-- Words with a gap after each. -/
theorem isTokens_flatMap (hne : g ≠ []) (hg : ∀ c ∈ g, sep c = true)
    (hv : ∀ w ∈ v, w ≠ [] ∧ ∀ c ∈ w, sep c = false) :
    IsTokens sep (v.flatMap (· ++ g)) v ∧ EndsInGap sep (v.flatMap (· ++ g)) := by
  induction v using List.reverseRecOn with
  | nil => exact ⟨isTokens_gap (List.forall_mem_nil _), endsInGap_gap (List.forall_mem_nil _)⟩
  | append_singleton v w ih =>
    obtain ⟨htokens, hgap⟩ := ih fun u hu => hv u (List.mem_append_left _ hu)
    obtain ⟨hw, hword⟩ := hv w (List.mem_append_right _ List.mem_cons_self)
    rw [List.flatMap_append, List.flatMap_singleton]
    refine ⟨htokens.snoc hgap hw hword hg, ?_⟩
    rw [← List.append_assoc]
    exact endsInGap_append hne hg

theorem intercalate_append_singleton :
    g.intercalate (v ++ [w]) = v.flatMap (· ++ g) ++ w := by
  induction v with
  | nil => exact List.intercalate_singleton
  | cons u v ih =>
    rw [List.cons_append, List.intercalate_cons_of_ne_nil (by simp), ih, List.flatMap_cons]
    simp only [List.append_assoc]

/-- Words with a gap between any two of them. -/
theorem isTokens_intercalate (hne : g ≠ []) (hg : ∀ c ∈ g, sep c = true)
    (hv : ∀ w ∈ v, w ≠ [] ∧ ∀ c ∈ w, sep c = false) : IsTokens sep (g.intercalate v) v := by
  cases v using List.reverseRecOn with
  | nil => exact isTokens_gap (List.forall_mem_nil _)
  | append_singleton v w =>
    obtain ⟨htokens, hgap⟩ :=
      isTokens_flatMap hne hg fun u hu => hv u (List.mem_append_left _ hu)
    obtain ⟨hw, hword⟩ := hv w (List.mem_append_right _ List.mem_cons_self)
    have hsnoc := htokens.snoc hgap hw hword (List.forall_mem_nil fun c => sep c = true)
    rwa [List.append_nil, ← intercalate_append_singleton] at hsnoc

end Lars.Tokens
