import Lars.Foundations.Tokens
import Lars.Reactor.ConfigFile

/-!
# Lists of strings in a configuration file

`config_file::GetStringList` (`lars_reactor/src/config_file.cc`) cuts a value at its separators. A
pass of its loop looks for the next separator, takes what is before it, and goes on behind the
separators that follow. It does not skip those at the start, and what is left at the end is taken
even if there is nothing.

It always returns (`exists_getStringList`), and what it returns are the tokens of the value if and
only if this starts with a character that is not a separator (`getStringList_iff`). Else an empty
string stands before the tokens (`getStringList_of_not_word`).
-/

namespace Lars.Reactor

open Machine Tokens

namespace ConfigFile

/-- The position of the first character with `p` from `pos` on; `none` is `npos`. -/
def findFrom (p : UInt8 → Bool) (s : Str) (pos : ℕ) : Option ℕ :=
  ((s.drop pos).findIdx? p).map (pos + ·)

/-- `s.find_first_of(set, pos)`. -/
def findFirstOf (s set : Str) (pos : ℕ) : Option ℕ := findFrom set.contains s pos

/-- `s.find_first_not_of(set, pos)`. -/
def findFirstNotOf (s set : Str) (pos : ℕ) : Option ℕ :=
  findFrom (fun c => !set.contains c) s pos

/-- `sep`: a comma, a space and a tab. -/
def sep : Str := [ch ',', ch ' ', ch '\t']

/-- The state of the loop of `GetStringList`. -/
structure Listing where
  start : ℕ
  v : List Str

/-- The body of the loop of `GetStringList`, with what comes after it. -/
def listBody (str : Str) (s : Listing) : Except LoadHalt (Pass Listing (List Str)) :=
  match findFirstOf str sep s.start with
  | none => do
    let last ← substrFrom str s.start
    .ok (.leave (s.v ++ [last]))
  | some index => do
    let item ← substr str s.start (index - s.start)
    match findFirstNotOf str sep index with
    | none => .ok (.leave (s.v ++ [item]))
    | some start => .ok (.next ⟨start, s.v ++ [item]⟩)

/-! ## Searching -/

variable {p : UInt8 → Bool} {s : Str} {pos i : ℕ}

theorem findFrom_eq_none (h : findFrom p s pos = none) : ∀ c ∈ s.drop pos, p c = false :=
  List.findIdx?_eq_none_iff.mp (Option.map_eq_none_iff.mp h)

/-- What is found by a search, and what is skipped. -/
structure Found (p : UInt8 → Bool) (s : Str) (pos i : ℕ) : Prop where
  le : pos ≤ i
  skipped : ∀ c ∈ (s.drop pos).take (i - pos), p c = false
  found : ∃ c r, s.drop i = c :: r ∧ p c = true

theorem findFrom_eq_some (h : findFrom p s pos = some i) : Found p s pos i := by
  obtain ⟨n, hn, rfl⟩ := Option.map_eq_some_iff.mp h
  obtain ⟨hlt, hp, hskip⟩ := List.findIdx?_eq_some_iff_getElem.mp hn
  refine ⟨Nat.le_add_right _ _, fun c hc => ?_, (s.drop pos)[n], (s.drop pos).drop (n + 1), ?_, hp⟩
  · rw [Nat.add_sub_cancel_left] at hc
    obtain ⟨k, hk, rfl⟩ := List.mem_take_iff_getElem.mp hc
    exact Bool.eq_false_iff.mpr (hskip k (by omega))
  · rw [← List.drop_drop]
    exact List.drop_eq_getElem_cons hlt

theorem Found.lt_length (h : Found p s pos i) : i < s.length := by
  obtain ⟨c, r, hr, -⟩ := h.found
  exact List.length_lt_of_drop_ne_nil (hr ▸ List.cons_ne_nil c r)

/-- A search goes on from a character without `p`. -/
theorem Found.lt {c : UInt8} {r : Str} (h : Found p s pos i) (hs : s.drop pos = c :: r)
    (hc : p c = false) : pos < i := by
  refine Nat.lt_of_le_of_ne h.le ?_
  rintro rfl
  obtain ⟨c', r', hr, hp⟩ := h.found
  rw [hs, List.cons.injEq] at hr
  rw [← hr.1, hc] at hp
  cases hp

theorem Found.skipped_ne_nil {c : UInt8} {r : Str} (h : Found p s pos i) (hs : s.drop pos = c :: r)
    (hc : p c = false) : (s.drop pos).take (i - pos) ≠ [] := by
  rw [hs, ne_eq, List.take_eq_nil_iff, not_or]
  exact ⟨Nat.sub_ne_zero_of_lt (h.lt hs hc), List.cons_ne_nil c r⟩

/-- What is before a position, and what is from there up to another one. -/
theorem take_append_between (h : pos ≤ i) :
    s.take pos ++ (s.drop pos).take (i - pos) = s.take i := by
  rw [← List.take_add, Nat.add_sub_cancel' h]

/-! ## The loop -/

theorem listBody_decreases (str : Str) :
    Decreases (listBody str) fun s => str.length - s.start := by
  intro s s' h
  unfold listBody at h
  cases hindex : findFirstOf str sep s.start with
  | none =>
    rw [hindex] at h
    obtain ⟨last, -, h⟩ := bind_eq_ok.mp h
    cases h
  | some index =>
    rw [hindex] at h
    obtain ⟨item, -, h⟩ := bind_eq_ok.mp h
    cases hstart : findFirstNotOf str sep index with
    | none =>
      rw [hstart] at h
      cases h
    | some start =>
      rw [hstart] at h
      cases h
      have hle := (findFrom_eq_some hindex).le
      obtain ⟨c, r, hr, hc⟩ := (findFrom_eq_some hindex).found
      have hlt := (findFrom_eq_some hstart).lt hr (by rw [hc]; rfl)
      have hlen := (findFrom_eq_some hstart).lt_length
      change str.length - start < str.length - s.start
      omega

/-- `config_file::GetStringList`. -/
def getStringList (cfg : ConfigFile) (sec key : Str) : Except LoadHalt (List Str) :=
  loop (listBody (cfg.getString sec key [])) (listBody_decreases _) ⟨0, []⟩

variable {str : Str} {st : Listing}

/-- What a pass does at a position in the value. -/
theorem listBody_cases (hstart : st.start ≤ str.length) :
    (findFirstOf str sep st.start = none ∧
      listBody str st = .ok (.leave (st.v ++ [str.drop st.start]))) ∨
    ∃ index, findFirstOf str sep st.start = some index ∧
      ((findFirstNotOf str sep index = none ∧
        listBody str st =
          .ok (.leave (st.v ++ [(str.drop st.start).take (index - st.start)]))) ∨
      ∃ start, findFirstNotOf str sep index = some start ∧
        listBody str st =
          .ok (.next ⟨start, st.v ++ [(str.drop st.start).take (index - st.start)]⟩)) := by
  unfold listBody
  cases hindex : findFirstOf str sep st.start with
  | none =>
    refine Or.inl ⟨rfl, ?_⟩
    simp only [substrFrom, if_neg hstart.not_gt, ok_bind]
  | some index =>
    refine Or.inr ⟨index, rfl, ?_⟩
    cases hnext : findFirstNotOf str sep index with
    | none =>
      refine Or.inl ⟨rfl, ?_⟩
      simp only [substr, if_neg hstart.not_gt, ok_bind, hnext]
    | some start =>
      refine Or.inr ⟨start, rfl, ?_⟩
      simp only [substr, if_neg hstart.not_gt, ok_bind, hnext]

/-! ## A value that starts with a word -/

/-- There is a first character, and it is not a separator. -/
def StartsWithWord (s : Str) : Prop := ∃ c r, s = c :: r ∧ sep.contains c = false

/-- At a word; the list is `pre` and the tokens of what is before. -/
structure Listed (str : Str) (pre : List Str) (st : Listing) : Prop where
  word : StartsWithWord (str.drop st.start)
  tokens : ∃ ts, IsTokens sep.contains (str.take st.start) ts ∧ st.v = pre ++ ts
  gap : EndsInGap sep.contains (str.take st.start)

variable {pre : List Str}

theorem Listed.start_le (h : Listed str pre st) : st.start ≤ str.length := by
  obtain ⟨c, r, hr, -⟩ := h.word
  exact (List.length_lt_of_drop_ne_nil (hr ▸ List.cons_ne_nil c r)).le

/-- A pass takes a word, and comes to the next one or to the end. -/
theorem Listed.pass (h : Listed str pre st) :
    (∃ st', listBody str st = .ok (.next st') ∧ Listed str pre st') ∨
      ∃ v, listBody str st = .ok (.leave v) ∧
        ∃ ts, IsTokens sep.contains str ts ∧ v = pre ++ ts := by
  obtain ⟨c, r, hr, hc⟩ := h.word
  obtain ⟨ts, hts, hv⟩ := h.tokens
  have hlist : ∀ item, st.v ++ [item] = pre ++ (ts ++ [item]) := fun item => by
    rw [hv, List.append_assoc]
  rcases listBody_cases h.start_le with ⟨hnone, hbody⟩ | ⟨index, hindex, hcases⟩
  · -- The rest of the value is a word.
    have htokens := hts.snoc h.gap (hr ▸ List.cons_ne_nil c r) (findFrom_eq_none hnone)
      (List.forall_mem_nil _)
    rw [List.append_nil, List.take_append_drop] at htokens
    exact Or.inr ⟨_, hbody, _, htokens, hlist _⟩
  · have hsep := findFrom_eq_some hindex
    have hsnoc := fun g => hts.snoc (g := g) h.gap (hsep.skipped_ne_nil hr hc) hsep.skipped
    rcases hcases with ⟨hnone, hbody⟩ | ⟨start, hstart, hbody⟩
    · -- A word, and separators to the end.
      have htokens := hsnoc (str.drop index) fun d hd =>
        Bool.not_inj (findFrom_eq_none hnone d hd)
      rw [← List.append_assoc, take_append_between hsep.le, List.take_append_drop] at htokens
      exact Or.inr ⟨_, hbody, _, htokens, hlist _⟩
    · -- A word, and separators up to the next one.
      have hword := findFrom_eq_some hstart
      obtain ⟨d, q, hq, hd⟩ := hsep.found
      obtain ⟨e, t, ht, he⟩ := hword.found
      have hgap : ∀ b ∈ (str.drop index).take (start - index), sep.contains b = true := fun b hb =>
        Bool.not_inj (hword.skipped b hb)
      have htokens := hsnoc _ hgap
      have hends := endsInGap_append (l := str.take index)
        (hword.skipped_ne_nil hq (by rw [hd]; rfl)) hgap
      rw [← List.append_assoc, take_append_between hsep.le, take_append_between hword.le]
        at htokens
      rw [take_append_between hword.le] at hends
      exact Or.inl ⟨_, hbody, ⟨e, t, ht, Bool.not_inj he⟩, ⟨_, htokens, hlist _⟩, hends⟩

/-! ## A value that does not -/

/-- At the start there is no word. -/
theorem eq_nil_at_start {w : Str} (h : ¬ StartsWithWord str) (hw : w <+: str)
    (hsep : ∀ c ∈ w, sep.contains c = false) : w = [] := by
  cases w with
  | nil => rfl
  | cons c w =>
    obtain ⟨t, rfl⟩ := hw
    exact absurd ⟨c, w ++ t, rfl, hsep c List.mem_cons_self⟩ h

/-- The first pass takes an empty string, and comes to a word or to the end. -/
theorem first_pass (h : ¬ StartsWithWord str) :
    (∃ st', listBody str ⟨0, []⟩ = .ok (.next st') ∧ Listed str [[]] st') ∨
      listBody str ⟨0, []⟩ = .ok (.leave [[]]) ∧ IsTokens sep.contains str [] := by
  have hstart : (⟨0, []⟩ : Listing).start ≤ str.length := Nat.zero_le _
  rcases listBody_cases hstart with ⟨hnone, hbody⟩ | ⟨index, hindex, hcases⟩
  · -- The value is empty.
    have hnil : str = [] := eq_nil_at_start h List.prefix_rfl (findFrom_eq_none hnone)
    rw [hnil] at hbody ⊢
    exact Or.inr ⟨hbody, isTokens_gap (List.forall_mem_nil _)⟩
  · have hsep := findFrom_eq_some hindex
    have hnil : str.take index = [] := eq_nil_at_start h (List.take_prefix _ _) hsep.skipped
    obtain rfl : index = 0 := (List.take_eq_nil_iff.mp hnil).resolve_right
      (List.length_pos_iff.mp (Nat.zero_lt_of_lt hsep.lt_length))
    rcases hcases with ⟨hnone, hbody⟩ | ⟨start, hstart, hbody⟩
    · -- There are only separators.
      exact Or.inr ⟨hbody, isTokens_gap fun c hc => Bool.not_inj (findFrom_eq_none hnone c hc)⟩
    · have hword := findFrom_eq_some hstart
      have hgap : ∀ c ∈ str.take start, sep.contains c = true := fun c hc =>
        Bool.not_inj (hword.skipped c hc)
      obtain ⟨c, r, hr, hc⟩ := hword.found
      exact Or.inl ⟨_, hbody, ⟨c, r, hr, Bool.not_inj hc⟩, ⟨[], isTokens_gap hgap, rfl⟩,
        endsInGap_gap hgap⟩

/-! ## Lists -/

/-- The loop from a word on. -/
theorem Listed.loop (h : Listed str pre st) :
    ∃ ts, Machine.loop (listBody str) (listBody_decreases str) st = .ok (pre ++ ts) ∧
      IsTokens sep.contains str ts := by
  obtain ⟨v, hv, ts, hts, rfl⟩ := loop_total _ (fun _ => Listed.pass) h
  exact ⟨ts, hv, hts⟩

variable (cfg : ConfigFile) (sec key : Str)

theorem getStringList_of_word (h : StartsWithWord (cfg.getString sec key [])) :
    ∃ v, cfg.getStringList sec key = .ok v ∧
      IsTokens sep.contains (cfg.getString sec key []) v := by
  have hgap : ∀ c ∈ ([] : Str), ConfigFile.sep.contains c = true := List.forall_mem_nil _
  have hstart : Listed (cfg.getString sec key []) [] ⟨0, []⟩ :=
    ⟨h, ⟨[], isTokens_gap hgap, rfl⟩, endsInGap_gap hgap⟩
  exact hstart.loop

/-- The list starts with an empty string, and goes on as it should. -/
theorem getStringList_of_not_word (h : ¬ StartsWithWord (cfg.getString sec key [])) :
    ∃ ts, cfg.getStringList sec key = .ok ([] :: ts) ∧
      IsTokens sep.contains (cfg.getString sec key []) ts := by
  rcases first_pass h with ⟨st, hbody, hst⟩ | ⟨hbody, hts⟩
  · obtain ⟨ts, hv, hts⟩ := hst.loop
    exact ⟨ts, (loop_next _ hbody).trans hv, hts⟩
  · exact ⟨[], loop_leave _ hbody, hts⟩

/-- `GetStringList` always returns. -/
theorem exists_getStringList : ∃ v, cfg.getStringList sec key = .ok v := by
  by_cases h : StartsWithWord (cfg.getString sec key [])
  · exact (cfg.getStringList_of_word sec key h).imp fun _ => And.left
  · obtain ⟨ts, hts, -⟩ := cfg.getStringList_of_not_word sec key h
    exact ⟨[] :: ts, hts⟩

/-- **The tokens of a value** are what `GetStringList` returns if and only if the value starts with
a character that is not a separator. -/
theorem getStringList_iff :
    (∃ v, cfg.getStringList sec key = .ok v ∧
      IsTokens sep.contains (cfg.getString sec key []) v) ↔
    StartsWithWord (cfg.getString sec key []) := by
  refine ⟨fun ⟨v, hv, htokens⟩ => ?_, cfg.getStringList_of_word sec key⟩
  by_contra h
  obtain ⟨ts, hts, -⟩ := cfg.getStringList_of_not_word sec key h
  obtain rfl : v = [] :: ts := Except.ok.inj (hv.symm.trans hts)
  exact htokens.nil_notMem List.mem_cons_self

/-- A key that is missing, and one whose value starts with a separator. -/
theorem not_getStringList :
    (¬ ∀ (cfg : ConfigFile) (sec key : Str), ∃ v, cfg.getStringList sec key = .ok v ∧
      IsTokens sep.contains (cfg.getString sec key []) v) ∧
    ({} : ConfigFile).getStringList [] [] = .ok [[]] ∧
    ((({} : ConfigFile).enter []).1.put 0 [] [ch ',', ch 'c']).getStringList [] [] =
      .ok [[], [ch 'c']] := by
  refine ⟨fun hall => ?_, rfl, rfl⟩
  obtain ⟨v, hv, htokens⟩ := hall {} [] []
  cases hv
  exact htokens.nil_notMem List.mem_cons_self

end ConfigFile

end Lars.Reactor
