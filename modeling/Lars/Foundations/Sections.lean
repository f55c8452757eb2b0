import Mathlib.Algebra.Order.Ring.Int
import Mathlib.Data.List.Basic

/-!
# Lines under headers

A file of lines, of which some are headers and some give values to keys, each value in the section
of the nearest header before it. `LastSets ls s k v` says that of the lines `ls` the last that gives
a value to the key `k` in a section `s` gives it `v`.

A reader that goes through the lines in order knows the section it is in (`under_append_header`,
`under_append_of_not_header`), and what has been given last (`lastSets_append_assign`,
`lastSets_append_of_not_assign`).
-/

namespace Lars.Sections

universe u v w

/-- A line. -/
inductive Line (σ : Type u) (κ : Type v) (ν : Type w)
  | header (name : σ)
  | assign (key : κ) (value : ν)
  | other

variable {σ : Type u} {κ : Type v} {ν : Type w}

/-- The line is a header. -/
def Line.IsHeader (l : Line σ κ ν) : Prop := ∃ s, l = .header s

/-- The line gives a value to a key. -/
def Line.IsAssign (l : Line σ κ ν) : Prop := ∃ k v, l = .assign k v

/-- The nearest header before position `i` has the name `s`. -/
def Under (ls : List (Line σ κ ν)) (i : ℕ) (s : σ) : Prop :=
  ∃ j < i, ls[j]? = some (.header s) ∧
    ∀ j', j < j' → j' < i → ∀ s', ls[j']? ≠ some (.header s')

/-- The line at position `i` gives the value `v` to the key `k` in a section `s`. -/
def Sets (ls : List (Line σ κ ν)) (i : ℕ) (s : σ) (k : κ) (v : ν) : Prop :=
  ls[i]? = some (.assign k v) ∧ Under ls i s

/-- The last line that gives a value to the key `k` in a section `s` gives it `v`. -/
def LastSets (ls : List (Line σ κ ν)) (s : σ) (k : κ) (v : ν) : Prop :=
  ∃ i, Sets ls i s k v ∧ ∀ j, i < j → ∀ v', ¬ Sets ls j s k v'

/-- Every line that gives a value comes after a header. -/
def Headed (ls : List (Line σ κ ν)) : Prop :=
  ∀ (i : ℕ) (k : κ) (v : ν), ls[i]? = some (.assign k v) →
    ∃ j < i, ∃ s : σ, ls[j]? = some (.header s)

variable {ls : List (Line σ κ ν)} {l : Line σ κ ν} {i : ℕ} {s : σ}

theorem getElem?_concat_eq_some {l' : Line σ κ ν} :
    (ls ++ [l])[i]? = some l' ↔ ls[i]? = some l' ∨ i = ls.length ∧ l = l' := by
  rcases lt_trichotomy i ls.length with h | rfl | h
  · rw [List.getElem?_append_left h]
    exact ⟨Or.inl, fun hor => hor.resolve_right fun hand => h.ne hand.1⟩
  · simp
  · have hnone : ls[i]? = none := List.getElem?_eq_none h.le
    have hnone' : (ls ++ [l])[i]? = none :=
      List.getElem?_eq_none (by rw [List.length_append, List.length_singleton]; omega)
    simp [hnone, hnone', h.ne']

/-! ## The section of a position -/

theorem Under.unique {s' : σ} (h : Under ls i s) (h' : Under ls i s') : s = s' := by
  obtain ⟨j, hj, hhead, hnone⟩ := h
  obtain ⟨j', hj', hhead', hnone'⟩ := h'
  rcases lt_trichotomy j j' with hlt | rfl | hlt
  · exact absurd hhead' (hnone j' hlt hj' s')
  · simpa using hhead.symm.trans hhead'
  · exact absurd hhead (hnone' j hlt hj s)

/-- There is a nearest header if there is one. -/
theorem exists_under_iff : (∃ s, Under ls i s) ↔ ∃ j < i, ∃ s, ls[j]? = some (.header s) := by
  constructor
  · rintro ⟨s, j, hj, hhead, -⟩
    exact ⟨j, hj, s, hhead⟩
  · intro h
    induction i with
    | zero =>
      obtain ⟨j, hj, -⟩ := h
      exact absurd hj (Nat.not_lt_zero j)
    | succ i ih =>
      by_cases hi : ∃ s, ls[i]? = some (.header s)
      · obtain ⟨s, hs⟩ := hi
        exact ⟨s, i, Nat.lt_succ_self i, hs, fun j' hlt hlt' => by omega⟩
      · obtain ⟨j, hj, s, hs⟩ := h
        have hne : j ≠ i := by
          rintro rfl
          exact hi ⟨s, hs⟩
        obtain ⟨s', j', hj', hhead, hnone⟩ := ih ⟨j, by omega, s, hs⟩
        refine ⟨s', j', by omega, hhead, fun k hk hk' s'' hs'' => ?_⟩
        by_cases hki : k = i
        · exact hi ⟨s'', hki ▸ hs''⟩
        · exact hnone k hk (by omega) s'' hs''

/-- Positions up to the end do not see a line that is appended. -/
theorem under_append (hi : i ≤ ls.length) : Under (ls ++ [l]) i s ↔ Under ls i s := by
  have hget : ∀ j < i, (ls ++ [l])[j]? = ls[j]? := fun j hj =>
    List.getElem?_append_left (by omega)
  refine exists_congr fun j => and_congr_right fun hj => ?_
  rw [hget j hj]
  refine and_congr_right fun _ => forall_congr' fun j' => ?_
  refine forall_congr' fun _ => forall_congr' fun hj' => ?_
  rw [hget j' hj']

/-- After a header. -/
theorem under_append_header {s' : σ} :
    Under (ls ++ [.header s']) (ls.length + 1) s ↔ s = s' := by
  have hlast : Under (ls ++ [.header s']) (ls.length + 1) s' := by
    refine ⟨ls.length, Nat.lt_succ_self _, ?_, fun j' hlt hlt' => by omega⟩
    exact getElem?_concat_eq_some.mpr (Or.inr ⟨rfl, rfl⟩)
  exact ⟨fun h => h.unique hlast, fun h => h ▸ hlast⟩

/-- After another line. -/
theorem under_append_of_not_header (hl : ¬ l.IsHeader) :
    Under (ls ++ [l]) (ls.length + 1) s ↔ Under ls ls.length s := by
  rw [← under_append (l := l) le_rfl]
  have hlast : ∀ s', (ls ++ [l])[ls.length]? ≠ some (.header s') := by
    intro s' h
    rw [List.getElem?_concat_length] at h
    exact hl ⟨s', Option.some.inj h⟩
  constructor
  · rintro ⟨j, hj, hhead, hnone⟩
    have hne : j ≠ ls.length := by
      rintro rfl
      exact hlast s hhead
    exact ⟨j, by omega, hhead, fun j' hlt hlt' => hnone j' hlt (by omega)⟩
  · rintro ⟨j, hj, hhead, hnone⟩
    refine ⟨j, by omega, hhead, fun j' hlt hlt' s' => ?_⟩
    by_cases hj' : j' = ls.length
    · exact hj' ▸ hlast s'
    · exact hnone j' hlt (by omega) s'

/-- A line that gives a value needs a header before it. -/
theorem headed_append :
    Headed (ls ++ [l]) ↔ Headed ls ∧ (l.IsAssign → ∃ s, Under ls ls.length s) := by
  have hget : ∀ j < ls.length, (ls ++ [l])[j]? = ls[j]? := fun j hj =>
    List.getElem?_append_left hj
  constructor
  · intro h
    refine ⟨fun i k v hi => ?_, ?_⟩
    · obtain ⟨hlt, -⟩ := List.getElem?_eq_some_iff.mp hi
      obtain ⟨j, hj, s, hs⟩ := h i k v ((hget i hlt).trans hi)
      exact ⟨j, hj, s, (hget j (hj.trans hlt)).symm.trans hs⟩
    · rintro ⟨k, v, rfl⟩
      obtain ⟨j, hj, s, hs⟩ := h ls.length k v List.getElem?_concat_length
      exact exists_under_iff.mpr ⟨j, hj, s, (hget j hj).symm.trans hs⟩
  · rintro ⟨h, hl⟩ i k v hi
    rcases getElem?_concat_eq_some.mp hi with hold | ⟨rfl, rfl⟩
    · obtain ⟨j, hj, s, hs⟩ := h i k v hold
      exact ⟨j, hj, s, getElem?_concat_eq_some.mpr (Or.inl hs)⟩
    · obtain ⟨j, hj, s, hs⟩ := exists_under_iff.mp (hl ⟨k, v, rfl⟩)
      exact ⟨j, hj, s, getElem?_concat_eq_some.mpr (Or.inl hs)⟩

/-! ## Values -/

theorem sets_append {k : κ} {v : ν} :
    Sets (ls ++ [l]) i s k v ↔
      Sets ls i s k v ∨ (i = ls.length ∧ l = .assign k v ∧ Under ls ls.length s) := by
  unfold Sets
  rw [getElem?_concat_eq_some]
  constructor
  · rintro ⟨hget | ⟨rfl, rfl⟩, hunder⟩
    · obtain ⟨hlt, -⟩ := List.getElem?_eq_some_iff.mp hget
      exact Or.inl ⟨hget, (under_append hlt.le).mp hunder⟩
    · exact Or.inr ⟨rfl, rfl, (under_append le_rfl).mp hunder⟩
  · rintro (⟨hget, hunder⟩ | ⟨rfl, rfl, hunder⟩)
    · obtain ⟨hlt, -⟩ := List.getElem?_eq_some_iff.mp hget
      exact ⟨Or.inl hget, (under_append hlt.le).mpr hunder⟩
    · exact ⟨Or.inr ⟨rfl, rfl⟩, (under_append le_rfl).mpr hunder⟩

theorem Sets.lt_length {k : κ} {v : ν} (h : Sets ls i s k v) : i < ls.length :=
  (List.getElem?_eq_some_iff.mp h.1).1

/-- A line that gives a value under `s` gives the last one there. -/
theorem lastSets_append_assign [DecidableEq σ] [DecidableEq κ] {k : κ} {v : ν}
    (hs : Under ls ls.length s) {s' : σ} {k' : κ} {v' : ν} :
    LastSets (ls ++ [.assign k v]) s' k' v' ↔
      if s' = s ∧ k' = k then v' = v else LastSets ls s' k' v' := by
  split_ifs with hsk
  · obtain ⟨rfl, rfl⟩ := hsk
    have hnew : Sets (ls ++ [.assign k' v]) ls.length s' k' v :=
      sets_append.mpr (Or.inr ⟨rfl, rfl, hs⟩)
    constructor
    · rintro ⟨i, hi, hlast⟩
      rcases sets_append.mp hi with hold | ⟨-, hassign, -⟩
      · exact absurd hnew (hlast _ hold.lt_length v)
      · exact (Line.assign.inj hassign).2.symm
    · rintro rfl
      refine ⟨ls.length, hnew, fun j hj v'' hj' => ?_⟩
      have hlt := hj'.lt_length
      rw [List.length_append, List.length_singleton] at hlt
      omega
  · have hsets : ∀ {j v''}, Sets (ls ++ [.assign k v]) j s' k' v'' ↔ Sets ls j s' k' v'' := by
      intro j v''
      refine sets_append.trans (or_iff_left ?_)
      rintro ⟨-, hassign, hunder⟩
      exact hsk ⟨hunder.unique hs, (Line.assign.inj hassign).1.symm⟩
    simp only [LastSets, hsets]

/-- Other lines change no value. -/
theorem lastSets_append_of_not_assign (hl : ¬ l.IsAssign) {k : κ} {v : ν} :
    LastSets (ls ++ [l]) s k v ↔ LastSets ls s k v := by
  have hsets : ∀ {j v}, Sets (ls ++ [l]) j s k v ↔ Sets ls j s k v := fun {j v} =>
    sets_append.trans (or_iff_left fun h => hl ⟨k, v, h.2.1⟩)
  simp only [LastSets, hsets]

end Lars.Sections
