import Lars.Agent.RouteLb
import Lars.Foundations.LastWrite

/-!
# The pairs that a table knows

A `route_lb` (`lars_agent/src/route_lb.cc`) is, as long as no hosts come, a set of pairs of a module
and a command. A pair is known from when it has first been looked up to an update for it without
hosts; when it gets known, the DNS server is asked for it.

The table keeps the pairs (`RouteLb.Keeps`) whatever is called (`RouteLb.Keeps.getHost`,
`RouteLb.Keeps.updateHost`).
-/

namespace Lars.Agent

open Reactor Machine Api

/-- What a `route_lb` is for, as long as no hosts come: pairs that are known, and all that the DNS
server has been asked for, in their order. -/
structure Pairs where
  known : Finset (Int32 × Int32) := ∅
  asked : List (Int32 × Int32) := []

namespace Pairs

/-- A pair is looked up: the DNS server is asked if it is not known. -/
def lookUp (a : Pairs) (pair : Int32 × Int32) : Pairs :=
  if pair ∈ a.known then a else ⟨insert pair a.known, a.asked ++ [pair]⟩

/-- A call for a pair; an update without hosts removes it. -/
def call (a : Pairs) : RouteCall → Pairs
  | .getHost _ modid cmdid _ => a.lookUp (modid, cmdid)
  | .updateHost _ modid cmdid hostInfos =>
    if (modid, cmdid) ∈ a.known ∧ hostInfos = [] then
      { a with known := a.known.erase (modid, cmdid) }
    else a.lookUp (modid, cmdid)

/-- The pair is asked for if it is not known. -/
theorem asked_lookUp (a : Pairs) (pair : Int32 × Int32) :
    (a.lookUp pair).asked = a.asked ++ if pair ∈ a.known then [] else [pair] := by
  unfold lookUp
  split_ifs
  · exact (List.append_nil _).symm
  · rfl

theorem asked_call (a : Pairs) (c : RouteCall) :
    (a.call c).asked = a.asked ++ if c.pair ∈ a.known then [] else [c.pair] := by
  cases c with
  | getHost u modid cmdid host => exact a.asked_lookUp _
  | updateHost u modid cmdid hostInfos =>
    by_cases hold : (modid, cmdid) ∈ a.known ∧ hostInfos = []
    · rw [call, if_pos hold, RouteCall.pair, if_pos hold.1, List.append_nil]
    · rw [call, if_neg hold]
      exact a.asked_lookUp _

end Pairs

namespace RouteLb

/-- The table keeps the pairs: those with an entry are known, and the objects created, which have
all been pulled when they were, are for the pairs asked for. -/
structure Keeps (s : RouteLb) (a : Pairs) : Prop where
  consistent : s.Consistent
  known : ∀ modid cmdid, (modid, cmdid) ∈ a.known ↔ s.entry modid cmdid ≠ none
  created : s.created = a.asked.length
  pulls : s.pulls = List.range s.created
  asked : ∀ p lb, s.objects p = some lb → a.asked[p]? = some (lb.mModid, lb.mCmdid)

theorem keeps_new (id : Int32) : (new id).Keeps {} where
  consistent := consistent_new id
  known _ _ := iff_of_false (Finset.notMem_empty _) fun h => h rfl
  created := rfl
  pulls := rfl
  asked _ _ hp := absurd hp (Option.some_ne_none _).symm

variable {s : RouteLb} {a : Pairs} {modid cmdid : Int32}

theorem Keeps.lookUp_of_some (h : s.Keeps a) {p : ℕ} (hp : s.entry modid cmdid = some p) :
    a.lookUp (modid, cmdid) = a :=
  if_pos ((h.known modid cmdid).mpr (by simp [hp]))

/-- A new entry is a pair that has not been known, asked. -/
theorem Keeps.added (h : s.Keeps a) (hnone : s.entry modid cmdid = none) (u : Uninitialized) :
    (s.added u modid cmdid).Keeps (a.lookUp (modid, cmdid)) := by
  have hnew : (modid, cmdid) ∉ a.known := fun hmem => (h.known modid cmdid).mp hmem hnone
  rw [Pairs.lookUp, if_neg hnew]
  refine ⟨Effect.consistent (.added u hnone) h.consistent, fun modid' cmdid' => ?_, ?_, ?_,
    fun p lb hp => ?_⟩
  · rw [Finset.mem_insert]
    by_cases hpair : (modid', cmdid') = (modid, cmdid)
    · obtain ⟨rfl, rfl⟩ := Prod.mk.inj hpair
      rw [entry_added_self]
      exact iff_of_true (.inl rfl) (Option.some_ne_none _)
    · rw [entry_added_of_ne hpair, ← h.known modid' cmdid', or_iff_right hpair]
  · rw [List.length_append, List.length_singleton, ← h.created]
    rfl
  · change s.pulls ++ [s.created] = List.range (s.created + 1)
    rw [List.range_succ, h.pulls]
  · rcases update_eq_some.mp hp with ⟨rfl, hlb⟩ | ⟨-, hold⟩
    · cases hlb
      rw [h.created, List.getElem?_concat_length]
      rfl
    · have hasked := h.asked p lb hold
      rw [List.getElem?_append_left (List.getElem?_eq_some_iff.mp hasked).1, hasked]

/-- An entry that is removed is a pair that is no longer known. -/
theorem Keeps.removed (h : s.Keeps a) {p : ℕ} (hp : s.entry modid cmdid = some p) :
    (s.removed modid cmdid p).Keeps { a with known := a.known.erase (modid, cmdid) } := by
  refine ⟨Effect.consistent (.removed p hp) h.consistent, fun modid' cmdid' => ?_, h.created,
    h.pulls, fun q lb hq => h.asked q lb (update_none_eq_some.mp hq).2⟩
  rw [Finset.mem_erase]
  by_cases hpair : (modid', cmdid') = (modid, cmdid)
  · obtain ⟨rfl, rfl⟩ := Prod.mk.inj hpair
    rw [entry_removed_self]
    exact iff_of_false (fun hmem => hmem.1 rfl) fun hne => hne rfl
  · rw [entry_removed_of_ne hpair, ← h.known modid' cmdid', and_iff_right hpair]

/-- **Looking a pair up** finds no host. -/
theorem Keeps.getHost (h : s.Keeps a) (u : Uninitialized) (modid cmdid : Int32) (host : HostInfo) :
    ∃ s', s.getHost u modid cmdid host = .ok ((LarsRetCode.noexist.toInt, host), s') ∧
      s'.Keeps (a.lookUp (modid, cmdid)) := by
  cases hentry : s.entry modid cmdid with
  | none => exact ⟨_, getHost_of_none hentry u host, h.added hentry u⟩
  | some p =>
    obtain ⟨lb, hlb, -, -, hstatus, hempty⟩ := h.consistent.constructed modid cmdid p hentry
    refine ⟨s, getHost_of_some hentry hlb hstatus hempty u host, ?_⟩
    rwa [h.lookUp_of_some hentry]

theorem Keeps.updateHost (h : s.Keeps a) (u : Uninitialized) (modid cmdid : Int32)
    (hostInfos : List HostInfo) :
    ∃ s', s.updateHost u modid cmdid hostInfos = .ok (0, s') ∧
      s'.Keeps (a.call (.updateHost u modid cmdid hostInfos)) := by
  cases hentry : s.entry modid cmdid with
  | none =>
    have hnew : (modid, cmdid) ∉ a.known := fun hmem => (h.known modid cmdid).mp hmem hentry
    refine ⟨_, updateHost_of_none hentry u hostInfos, ?_⟩
    rw [Pairs.call, if_neg fun hmem => hnew hmem.1]
    exact h.added hentry u
  | some p =>
    obtain ⟨lb, hlb, -⟩ := h.consistent.constructed modid cmdid p hentry
    have hold : (modid, cmdid) ∈ a.known := (h.known modid cmdid).mpr (by simp [hentry])
    refine ⟨_, updateHost_of_some hentry hlb u hostInfos, ?_⟩
    rw [Pairs.call]
    by_cases hnil : hostInfos = []
    · rw [if_pos hnil, if_pos ⟨hold, hnil⟩]
      exact h.removed hentry
    · rw [if_neg hnil, if_neg fun hcall => hnil hcall.2, h.lookUp_of_some hentry]
      exact h

end RouteLb

end Lars.Agent
