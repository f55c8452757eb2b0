import Mathlib.Data.Finmap
import Mathlib.Data.Multiset.Bind

/-!
# Maps to sets

A map from keys to finite sets, as a hash map of hash sets is: iterated in an order nobody may rely
on. The map is a `Finmap` and a loop over a set is a fold whose passes commute, so that the order
has no say.

* `get`: the set of a key, empty if it has none;
* `emplace`, `remove`: an element put into, or taken out of, the set of a key;
* `emplaceAt`: an element put into the sets of several keys;
* `extract`: the entries of several keys moved to a map of their own;
* `pairs`: all keys with their elements, as nested loops visit them.
-/

namespace Lars

/-- A map to finite sets. -/
abbrev SetMap (κ α : Type*) := Finmap fun _ : κ => Finset α

namespace SetMap

variable {κ α : Type*} [DecidableEq κ]

/-- The set of a key. -/
def get (m : SetMap κ α) (k : κ) : Finset α := (m.lookup k).getD ∅

@[simp] theorem get_empty (k : κ) : get (∅ : SetMap κ α) k = ∅ := rfl

theorem get_of_lookup {m : SetMap κ α} {k : κ} {s : Finset α} (h : m.lookup k = some s) :
    m.get k = s := by
  rw [get, h, Option.getD_some]

theorem mem_of_mem_get {m : SetMap κ α} {k : κ} {a : α} (h : a ∈ m.get k) : k ∈ m := by
  by_contra hk
  rw [get, Finmap.lookup_eq_none.mpr hk, Option.getD_none] at h
  exact Finset.notMem_empty a h

@[simp] theorem get_insert (m : SetMap κ α) (k k' : κ) (s : Finset α) :
    get (m.insert k s) k' = if k' = k then s else m.get k' := by
  unfold get
  split_ifs with h
  · rw [h, Finmap.lookup_insert, Option.getD_some]
  · rw [Finmap.lookup_insert_of_ne _ h]

@[simp] theorem get_erase (m : SetMap κ α) (k k' : κ) :
    get (m.erase k) k' = if k' = k then ∅ else m.get k' := by
  unfold get
  split_ifs with h
  · rw [h, Finmap.lookup_erase, Option.getD_none]
  · rw [Finmap.lookup_erase_ne h]

section Elements

variable [DecidableEq α]

/-- `m[k].emplace(a)`. -/
def emplace (m : SetMap κ α) (k : κ) (a : α) : SetMap κ α := m.insert k (insert a (m.get k))

/-- `m[k].erase(a)`, and the entry with it if that leaves the set empty. -/
def remove (m : SetMap κ α) (k : κ) (a : α) : SetMap κ α :=
  let m : SetMap κ α := m.insert k ((m.get k).erase a)
  if m.get k = ∅ then m.erase k else m

@[simp] theorem mem_get_emplace {m : SetMap κ α} {k k' : κ} {a a' : α} :
    a' ∈ (m.emplace k a).get k' ↔ k' = k ∧ a' = a ∨ a' ∈ m.get k' := by
  rw [emplace, get_insert]
  split_ifs with h
  · simp [h]
  · simp [h]

@[simp] theorem mem_get_remove {m : SetMap κ α} {k k' : κ} {a a' : α} :
    a' ∈ (m.remove k a).get k' ↔ a' ∈ m.get k' ∧ ¬(k' = k ∧ a' = a) := by
  have hget : (m.remove k a).get k' = if k' = k then (m.get k).erase a else m.get k' := by
    unfold remove
    simp only [get_insert, if_true]
    split_ifs with h₀ h h
    · rw [get_erase, if_pos h, h₀]
    · rw [get_erase, if_neg h, get_insert, if_neg h]
    · rw [get_insert, if_pos h]
    · rw [get_insert, if_neg h]
  rw [hget]
  split_ifs with h
  · rw [h, Finset.mem_erase]
    tauto
  · simp [h]

instance emplace_rightCommutative (a : α) :
    RightCommutative fun (m : SetMap κ α) (k : κ) => m.emplace k a where
  right_comm m k₁ k₂ := by
    by_cases h : k₁ = k₂
    · rw [h]
    · unfold emplace
      rw [get_insert, get_insert, if_neg h, if_neg (Ne.symm h), Finmap.insert_insert_of_ne _ h]

/-- `a` put into the sets of all `ks`. -/
def emplaceAt (m : SetMap κ α) (ks : Finset κ) (a : α) : SetMap κ α :=
  ks.val.foldl (fun m k => m.emplace k a) m

@[simp] theorem mem_get_emplaceAt {m : SetMap κ α} {ks : Finset κ} {k : κ} {a a' : α} :
    a' ∈ (m.emplaceAt ks a).get k ↔ k ∈ ks ∧ a' = a ∨ a' ∈ m.get k := by
  unfold emplaceAt
  induction ks using Finset.induction_on generalizing m with
  | empty => simp
  | insert k₁ ks hk ih =>
    rw [Finset.insert_val_of_notMem hk, Multiset.foldl_cons, ih, mem_get_emplace, Finset.mem_insert]
    tauto

theorem mem_emplaceAt {m : SetMap κ α} {ks : Finset κ} {k : κ} {a : α} :
    k ∈ m.emplaceAt ks a ↔ k ∈ ks ∨ k ∈ m := by
  unfold emplaceAt
  induction ks using Finset.induction_on generalizing m with
  | empty => simp
  | insert k₁ ks hk ih =>
    rw [Finset.insert_val_of_notMem hk, Multiset.foldl_cons, ih, emplace, Finmap.mem_insert,
      Finset.mem_insert]
    tauto

end Elements

/-! ## Entries moved to another map -/

/-- The entry of `k` moved from the first map to the second, where an entry of `k` would stay. -/
def moveEntry (p : SetMap κ α × SetMap κ α) (k : κ) : SetMap κ α × SetMap κ α :=
  match p.1.lookup k with
  | none => p
  | some s => (p.1.erase k, if k ∈ p.2 then p.2 else p.2.insert k s)

instance moveEntry_rightCommutative : RightCommutative (@moveEntry κ α _) where
  right_comm p k₁ k₂ := by
    obtain rfl | h := eq_or_ne k₁ k₂
    · rfl
    · unfold moveEntry
      cases h₁ : p.1.lookup k₁ <;> cases h₂ : p.1.lookup k₂ <;>
        simp only [h₁, h₂, Finmap.lookup_erase_ne h, Finmap.lookup_erase_ne h.symm]
      rw [Finmap.erase_erase]
      by_cases m₁ : k₁ ∈ p.2 <;> by_cases m₂ : k₂ ∈ p.2 <;>
        simp [m₁, m₂, h, h.symm, Finmap.insert_insert_of_ne]

/-- The entries of the keys `ks` moved to a map of their own: the map left, and the new one. -/
def extract (m : SetMap κ α) (ks : Finset κ) : SetMap κ α × SetMap κ α :=
  ks.val.foldl moveEntry (m, ∅)

theorem get_moveEntry_fst (p : SetMap κ α × SetMap κ α) (k k' : κ) :
    get (moveEntry p k).1 k' = if k' = k then ∅ else p.1.get k' := by
  unfold moveEntry
  split
  · rename_i h
    split_ifs with hk
    · rw [hk, get, h, Option.getD_none]
    · rfl
  · exact get_erase p.1 k k'

theorem get_moveEntry_snd {p : SetMap κ α × SetMap κ α} {k : κ} (hk : k ∉ p.2) (k' : κ) :
    get (moveEntry p k).2 k' = if k' = k then p.1.get k else p.2.get k' := by
  unfold moveEntry
  split
  · rename_i h
    split_ifs with hk'
    · rw [hk', get, get, Finmap.lookup_eq_none.mpr hk, h]
    · rfl
  · rename_i s h
    rw [if_neg hk, get_insert, get_of_lookup h]

theorem mem_moveEntry_snd {p : SetMap κ α × SetMap κ α} {k k' : κ} (hne : k' ≠ k) :
    k' ∈ (moveEntry p k).2 ↔ k' ∈ p.2 := by
  unfold moveEntry
  split
  · rfl
  · split_ifs
    · rfl
    · simp [hne]

theorem get_foldl_moveEntry {ks : Finset κ} {p : SetMap κ α × SetMap κ α} (hp : ∀ k ∈ ks, k ∉ p.2)
    (k : κ) :
    get (ks.val.foldl moveEntry p).1 k = (if k ∈ ks then ∅ else p.1.get k) ∧
      get (ks.val.foldl moveEntry p).2 k = (if k ∈ ks then p.1.get k else p.2.get k) := by
  induction ks using Finset.induction_on generalizing p with
  | empty => simp
  | insert k₁ ks hk₁ ih =>
    have hp' : ∀ k ∈ ks, k ∉ (moveEntry p k₁).2 := by
      intro k hk
      rw [mem_moveEntry_snd (by rintro rfl; exact hk₁ hk)]
      exact hp k (Finset.mem_insert_of_mem hk)
    rw [Finset.insert_val_of_notMem hk₁, Multiset.foldl_cons]
    obtain ⟨h₁, h₂⟩ := ih hp'
    rw [get_moveEntry_fst] at h₁ h₂
    rw [get_moveEntry_snd (hp k₁ (Finset.mem_insert_self _ _))] at h₂
    rw [h₁, h₂]
    obtain rfl | hne := eq_or_ne k k₁
    · simp [hk₁]
    · simp [hne]

/-- What is left has nothing under the keys. -/
@[simp] theorem get_extract_fst (m : SetMap κ α) (ks : Finset κ) (k : κ) :
    get (m.extract ks).1 k = if k ∈ ks then ∅ else m.get k :=
  (get_foldl_moveEntry (fun _ _ => Finmap.notMem_empty) k).1

/-- What is extracted has what was under the keys. -/
@[simp] theorem get_extract_snd (m : SetMap κ α) (ks : Finset κ) (k : κ) :
    get (m.extract ks).2 k = if k ∈ ks then m.get k else ∅ :=
  (get_foldl_moveEntry (fun _ _ => Finmap.notMem_empty) k).2

theorem mem_foldl_moveEntry {ks : Finset κ} {p : SetMap κ α × SetMap κ α} {k : κ} :
    (k ∈ (ks.val.foldl moveEntry p).1 → k ∈ p.1) ∧
      (k ∈ (ks.val.foldl moveEntry p).2 → k ∈ p.2 ∨ k ∈ ks ∧ k ∈ p.1) := by
  induction ks using Finset.induction_on generalizing p with
  | empty => simp
  | insert k₁ ks hk₁ ih =>
    rw [Finset.insert_val_of_notMem hk₁, Multiset.foldl_cons]
    obtain ⟨h₁, h₂⟩ := ih (p := moveEntry p k₁)
    have hfst : k ∈ (moveEntry p k₁).1 → k ∈ p.1 := by
      unfold moveEntry
      split
      · exact id
      · exact fun h => (Finmap.mem_erase.mp h).2
    have hsnd : k ∈ (moveEntry p k₁).2 → k ∈ p.2 ∨ k = k₁ ∧ k ∈ p.1 := by
      unfold moveEntry
      split
      · exact Or.inl
      · rename_i s hs
        split_ifs
        · exact Or.inl
        · intro h
          rcases Finmap.mem_insert.mp h with rfl | h
          · exact Or.inr ⟨rfl, Finmap.mem_of_lookup_eq_some hs⟩
          · exact Or.inl h
    refine ⟨fun h => hfst (h₁ h), fun h => ?_⟩
    rcases h₂ h with hmoved | ⟨hk, hleft⟩
    · rcases hsnd hmoved with hp | ⟨rfl, hp⟩
      · exact Or.inl hp
      · exact Or.inr ⟨Finset.mem_insert_self _ _, hp⟩
    · exact Or.inr ⟨Finset.mem_insert_of_mem hk, hfst hleft⟩

/-- What is left was there. -/
theorem mem_of_mem_extract_fst {m : SetMap κ α} {ks : Finset κ} {k : κ}
    (h : k ∈ (m.extract ks).1) : k ∈ m := mem_foldl_moveEntry.1 h

/-- What is extracted was there, and asked for. -/
theorem mem_of_mem_extract_snd {m : SetMap κ α} {ks : Finset κ} {k : κ}
    (h : k ∈ (m.extract ks).2) : k ∈ ks ∧ k ∈ m :=
  (mem_foldl_moveEntry.2 h).resolve_left Finmap.notMem_empty

/-! ## Nested loops over a map -/

/-- All keys with their elements. -/
def pairs (m : SetMap κ α) : Multiset (κ × α) := m.entries.bind fun e => e.2.val.map (Prod.mk e.1)

theorem mem_pairs {m : SetMap κ α} {k : κ} {a : α} : (k, a) ∈ m.pairs ↔ a ∈ m.get k := by
  rw [pairs, Multiset.mem_bind]
  constructor
  · rintro ⟨⟨k', s⟩, he, hs⟩
    obtain ⟨a', ha, h⟩ := Multiset.mem_map.mp hs
    cases h
    rw [get_of_lookup (Finmap.lookup_eq_some_iff.mpr he)]
    exact ha
  · intro h
    cases hk : m.lookup k with
    | none =>
      rw [get, hk, Option.getD_none] at h
      simp at h
    | some s =>
      rw [get_of_lookup hk] at h
      exact ⟨⟨k, s⟩, Finmap.lookup_eq_some_iff.mp hk, Multiset.mem_map.mpr ⟨a, h, rfl⟩⟩

theorem nodup_pairs (m : SetMap κ α) : m.pairs.Nodup := by
  rw [pairs, Multiset.nodup_bind]
  refine ⟨fun e _ => e.2.nodup.map (Prod.mk_right_injective e.1), ?_⟩
  refine m.nodup_entries.pairwise fun ⟨k, s⟩ he ⟨k', s'⟩ he' hne => ?_
  rw [Function.onFun, Multiset.disjoint_left]
  rintro ⟨k₀, a⟩ h h'
  obtain ⟨_, _, hk⟩ := Multiset.mem_map.mp h
  obtain ⟨_, _, hk'⟩ := Multiset.mem_map.mp h'
  cases hk
  cases hk'
  have hs := Finmap.lookup_eq_some_iff.mpr he
  rw [Finmap.lookup_eq_some_iff.mpr he'] at hs
  cases hs
  exact hne rfl

/-- The nested loops visit each element of each key once. -/
theorem pairs_eq_of_mem_iff {m : SetMap κ α} {t : Finset (κ × α)}
    (h : ∀ k a, a ∈ m.get k ↔ (k, a) ∈ t) : m.pairs = t.val := by
  rw [m.nodup_pairs.ext t.nodup]
  rintro ⟨k, a⟩
  rw [mem_pairs, h]
  exact Iff.rfl

end SetMap

end Lars
