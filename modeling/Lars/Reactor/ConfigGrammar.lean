import Mathlib.Data.List.DropRight
import Lars.Foundations.LastWrite
import Lars.Foundations.Sections
import Lars.Reactor.ConfigFile

/-!
# What a configuration file says

A line of a file is a header, or gives a value to a key in the section of the nearest header before
it, or neither (`readLine`). `Load` goes through the lines with the pointer to the current section's
map, which is null if no header has come.

* A file is read without a crash if and only if every line with a key comes after a header
  (`loads_iff`).
* Then `GetString` gives what the last line for the key in the section says, or the default
  (`load_reads`).
-/

namespace Lars.Reactor

open Machine Sections

/-! ## The grammar -/

/-- A string without the white space at its ends. -/
def trimmed (s : Str) : Str := (s.rdropWhile isspace).dropWhile isspace

/-- The trimmed line is longer than 2, starts with `[` and ends with `]`. -/
def IsHeaderLine (line : Str) : Prop :=
  2 < (trimmed line).length ∧ (trimmed line).head? = some (ch '[') ∧
    (trimmed line).getLast? = some (ch ']')

/-- A key is not empty, and is not the start of a comment. -/
def IsKey (key : Str) : Prop :=
  key ≠ [] ∧ key.head? ≠ some (ch '#') ∧ key.head? ≠ some (ch ';')

instance instDecidableIsHeaderLine (line : Str) : Decidable (IsHeaderLine line) :=
  inferInstanceAs (Decidable (_ ∧ _))

instance instDecidableIsKey (key : Str) : Decidable (IsKey key) :=
  inferInstanceAs (Decidable (_ ∧ _))

/-- What a line says. -/
def readLine (line : Str) : Line Str Str Str :=
  if IsHeaderLine line then .header (trimmed ((trimmed line).tail.dropLast))
  else if ch '=' ∈ line ∧ IsKey (trimmed (line.takeWhile (· ≠ ch '='))) then
    .assign (trimmed (line.takeWhile (· ≠ ch '='))) (trimmed (line.dropWhile (· ≠ ch '=')).tail)
  else .other

/-- What a file says, line by line. -/
def grammar (content : Str) : List (Line Str Str Str) :=
  (content.splitOn newline).map readLine

/-! ## Trimming -/

theorem firstNotEmpty_le (s : Str) : firstNotEmpty s ≤ s.length := by
  induction s with
  | nil => exact le_rfl
  | cons c s ih =>
    rw [firstNotEmpty, List.length_cons]
    split_ifs <;> omega

theorem drop_firstNotEmpty (s : Str) : s.drop (firstNotEmpty s) = s.dropWhile isspace := by
  induction s with
  | nil => rfl
  | cons c s ih =>
    rw [firstNotEmpty, List.dropWhile_cons]
    split_ifs
    · exact ih
    · rfl

theorem trimLeft_eq (s : Str) : trimLeft s = .ok (s.dropWhile isspace) := by
  rw [trimLeft, substrFrom, if_neg (firstNotEmpty_le s).not_gt, drop_firstNotEmpty]

theorem lastNotEmpty_le (s : Str) (i : ℕ) : lastNotEmpty s i ≤ i := by
  induction i with
  | zero => exact le_rfl
  | succ i ih =>
    rw [lastNotEmpty]
    split_ifs <;> omega

theorem lastNotEmpty_append (s t : Str) {i : ℕ} (hi : i ≤ s.length) :
    lastNotEmpty (s ++ t) i = lastNotEmpty s i := by
  induction i with
  | zero => rfl
  | succ i ih =>
    rw [lastNotEmpty, lastNotEmpty, ih (by omega), List.getD_append _ _ _ _ (by omega)]

theorem take_lastNotEmpty (s : Str) :
    s.take (lastNotEmpty s s.length) = s.rdropWhile isspace := by
  induction s using List.reverseRecOn with
  | nil => rfl
  | append_singleton s c ih =>
    have hlast : (s ++ [c]).getD s.length 0 = c := by simp
    rw [List.length_append, List.length_singleton, lastNotEmpty, hlast, List.rdropWhile_concat,
      lastNotEmpty_append s [c] le_rfl]
    split_ifs
    · rw [List.take_append_of_le_length (lastNotEmpty_le s s.length), ih]
    · exact List.take_of_length_le (by simp)

theorem trimRight_eq (s : Str) : trimRight s = .ok (s.rdropWhile isspace) := by
  rw [trimRight, substr, if_neg (Nat.not_lt_zero _), List.drop_zero, take_lastNotEmpty]

theorem trim_eq (s : Str) : trim s = .ok (trimmed s) := by
  rw [trim, trimRight_eq, ok_bind, trimLeft_eq, trimmed]

/-! ## Lines -/

theorem charAt_eq_ok {s : Str} {i : ℕ} {c : UInt8} (h : s[i]? = some c) :
    charAt s i = .ok c := by
  rw [charAt, h]

theorem isSection_of_header {line : Str} (h : IsHeaderLine line) :
    isSection line = .ok (true, trimmed (trimmed line).tail.dropLast) := by
  obtain ⟨hlen, hhead, hlast⟩ := h
  rw [List.head?_eq_getElem?] at hhead
  rw [List.getLast?_eq_getElem?] at hlast
  have hsub : substr (trimmed line) 1 ((trimmed line).length - 2) =
      .ok (trimmed line).tail.dropLast := by
    rw [substr, if_neg (by omega), List.drop_one, List.dropLast_eq_take, List.length_tail,
      Nat.sub_sub]
  have hempty : ((trimmed line).isEmpty || decide ((trimmed line).length ≤ 2)) = false := by
    rw [Bool.or_eq_false_iff, List.isEmpty_eq_false_iff, decide_eq_false_iff_not]
    exact ⟨List.length_pos_iff.mp (by omega), by omega⟩
  simp only [isSection, trim_eq, ok_bind, hempty, Bool.false_eq_true, if_false,
    charAt_eq_ok hhead, charAt_eq_ok hlast, ne_eq, not_true_eq_false, hsub]

theorem isSection_of_not_header {line : Str} (h : ¬ IsHeaderLine line) :
    isSection line = .ok (false, trimmed line) := by
  rw [isSection, trim_eq, ok_bind]
  by_cases hempty : ((trimmed line).isEmpty || decide ((trimmed line).length ≤ 2)) = true
  · rw [if_pos hempty]
  rw [if_neg hempty]
  have hlen : 2 < (trimmed line).length := by
    by_contra hcon
    exact hempty (Bool.or_eq_true_iff.mpr (Or.inr (decide_eq_true (not_lt.mp hcon))))
  obtain ⟨first, hfirst⟩ : ∃ c, (trimmed line)[0]? = some c :=
    ⟨_, List.getElem?_eq_getElem (by omega)⟩
  obtain ⟨last, hlast⟩ : ∃ c, (trimmed line)[(trimmed line).length - 1]? = some c :=
    ⟨_, List.getElem?_eq_getElem (by omega)⟩
  simp only [charAt_eq_ok hfirst, charAt_eq_ok hlast, ok_bind]
  split_ifs with h₁ h₂
  · rfl
  · rfl
  · refine absurd ⟨hlen, ?_, ?_⟩ h
    · rw [List.head?_eq_getElem?, hfirst, not_not.mp h₁]
    · rw [List.getLast?_eq_getElem?, hlast, not_not.mp h₂]

theorem isKey_cons {c : UInt8} {key : Str} :
    IsKey (c :: key) ↔ ¬ (c = ch '#' ∨ c = ch ';') := by
  simp [IsKey]

/-- `find` of a character that is not in the string. -/
theorem findIdx?_eq_none {s : Str} {c : UInt8} (h : c ∉ s) : s.findIdx? (· == c) = none :=
  List.findIdx?_eq_none_iff.mpr fun _ hx => beq_eq_false_iff_ne.mpr (ne_of_mem_of_not_mem hx h)

/-- `find` of a character, and what is before and after it. -/
theorem exists_findIdx? {s : Str} {c : UInt8} (h : c ∈ s) :
    ∃ i < s.length, s.findIdx? (· == c) = some i ∧ s.take i = s.takeWhile (· ≠ c) ∧
      s.drop (i + 1) = (s.dropWhile (· ≠ c)).tail := by
  induction s with
  | nil => cases h
  | cons x s ih =>
    by_cases hx : x = c
    · subst hx
      exact ⟨0, by simp, by simp [List.findIdx?_cons], by simp, by simp⟩
    · obtain ⟨i, hi, hfind, htake, hdrop⟩ := ih ((List.mem_cons.mp h).resolve_left (Ne.symm hx))
      refine ⟨i + 1, by simpa using hi, ?_, ?_, ?_⟩
      · simp [List.findIdx?_cons, hx, hfind]
      · simp [hx, htake]
      · simp [hx, hdrop]

namespace ConfigFile

/-- What a pass of the loop does with a line. -/
theorem loadLine_eq (st : ConfigFile × Option ℕ) (line : Str) :
    loadLine st line =
      match readLine line with
      | .header sec => .ok (st.1.enter sec)
      | .other => .ok st
      | .assign key value =>
        match st.2 with
        | none => .error .nullMap
        | some p => .ok (st.1.put p key value, st.2) := by
  unfold loadLine readLine
  by_cases hheader : IsHeaderLine line
  · rw [isSection_of_header hheader, if_pos hheader]
    rfl
  rw [isSection_of_not_header hheader, if_neg hheader]
  by_cases heq : ch '=' ∈ line
  · obtain ⟨i, hi, hfind, htake, hdrop⟩ := exists_findIdx? heq
    have hkey : substr line 0 i = .ok (line.takeWhile (· ≠ ch '=')) := by
      rw [substr, if_neg (Nat.not_lt_zero _), List.drop_zero, htake]
    have hvalue : substrFrom line (i + 1) = .ok (line.dropWhile (· ≠ ch '=')).tail := by
      rw [substrFrom, if_neg (by omega), hdrop]
    simp only [ok_bind, Bool.false_eq_true, if_false, hfind, hkey, hvalue, trim_eq]
    generalize trimmed (line.takeWhile (· ≠ ch '=')) = key
    cases key with
    | nil => rw [if_neg fun h => h.2.1 rfl]
    | cons c key =>
      dsimp only
      by_cases hc : c = ch '#' ∨ c = ch ';'
      · have hnot : ¬ (ch '=' ∈ line ∧ IsKey (c :: key)) := fun h => isKey_cons.mp h.2 hc
        rw [if_pos hc, if_neg hnot]
      · have hkey : ch '=' ∈ line ∧ IsKey (c :: key) := ⟨heq, isKey_cons.mpr hc⟩
        cases st.2 with
        | none => rw [if_neg hc, if_pos hkey]
        | some p => rw [if_neg hc, if_pos hkey]
  · rw [if_neg fun h => heq h.1]
    simp only [ok_bind, Bool.false_eq_true, if_false, findIdx?_eq_none heq]

/-! ## The loop -/

/-- `getline` cuts the first line off. -/
theorem splitOn_of_getline {s line rest : Str} {eof : Bool} (h : getline s = (line, rest, eof)) :
    s.splitOn newline = line :: if eof then [] else rest.splitOn newline := by
  induction s generalizing line rest eof with
  | nil =>
    cases h
    rfl
  | cons c s ih =>
    rw [List.splitOn_cons_eq_if_modifyHead]
    unfold getline at h
    split_ifs at h with hc
    · cases h
      rw [if_pos (beq_iff_eq.mpr hc)]
      rfl
    · cases h
      rw [if_neg (by rwa [beq_iff_eq]), ih rfl, List.modifyHead_cons]

/-- The loop goes through the lines. -/
theorem loop_eq_foldlM (s : Str) (st : ConfigFile × Option ℕ) :
    loop loadBody loadBody_decreases ⟨s, false, st.1, st.2⟩ =
      ((s.splitOn newline).foldlM loadLine st >>= fun st' => .ok st'.1) := by
  induction hn : s.length using Nat.strong_induction_on generalizing s st with
  | _ n ih =>
    rcases hline : getline s with ⟨line, rest, eof⟩
    rw [splitOn_of_getline hline, List.foldlM_cons, bind_assoc]
    cases hstep : loadLine st line with
    | error t =>
      rw [error_bind]
      refine loop_error _ ?_
      simp only [loadBody, Bool.not_false, if_true, hline, hstep, error_bind]
    | ok st' =>
      have hbody : loadBody ⟨s, false, st.1, st.2⟩ = .ok (.next ⟨rest, eof, st'.1, st'.2⟩) := by
        simp only [loadBody, Bool.not_false, if_true, hline, hstep, ok_bind]
      rw [ok_bind, loop_next _ hbody]
      cases eof with
      | true => exact loop_leave _ rfl
      | false =>
        have hlt := length_getline_lt hline
        exact ih rest.length (by simpa [← hn] using hlt) rest st' rfl

/-! ## The maps -/

/-- What the maps have for a key in a section. -/
def find (cfg : ConfigFile) (sec key : Str) : Option Str :=
  (cfg.map sec).bind fun p => cfg.maps p key

/-- The sections have maps of their own, all of which have been created. -/
structure Separate (cfg : ConfigFile) : Prop where
  created : ∀ {sec p}, cfg.map sec = some p → p < cfg.created
  injective : ∀ {sec sec' p}, cfg.map sec = some p → cfg.map sec' = some p → sec = sec'

variable {cfg : ConfigFile}

theorem getString_eq (sec key defaultValue : Str) :
    cfg.getString sec key defaultValue = (cfg.find sec key).getD defaultValue := by
  unfold getString find
  cases cfg.map sec <;> rfl

theorem separate_empty : Separate {} := ⟨nofun, nofun⟩

/-- The section entered is the current one. -/
theorem enter_map (sec : Str) :
    ∃ p, (cfg.enter sec).1.map sec = some p ∧ (cfg.enter sec).2 = some p := by
  unfold enter
  cases hmap : cfg.map sec with
  | none => exact ⟨cfg.created, Function.update_self .., rfl⟩
  | some p => exact ⟨p, hmap, rfl⟩

/-- A section entered for the first time gets a map of its own. -/
theorem enter_of_none {sec : Str} (h : cfg.map sec = none) :
    (cfg.enter sec).1 =
      { map := Function.update cfg.map sec (some cfg.created)
        maps := Function.update cfg.maps cfg.created fun _ => none
        created := cfg.created + 1 } := by
  rw [enter, h]

theorem enter_of_some {sec : Str} {p : ℕ} (h : cfg.map sec = some p) :
    (cfg.enter sec).1 = cfg := by
  rw [enter, h]

theorem Separate.enter (h : cfg.Separate) (sec : Str) : (cfg.enter sec).1.Separate := by
  cases hmap : cfg.map sec with
  | some p =>
    rw [enter_of_some hmap]
    exact h
  | none =>
    rw [enter_of_none hmap]
    constructor
    · intro s p hs
      rcases update_eq_some.mp hs with ⟨-, ⟨⟩⟩ | ⟨-, hs⟩
      · exact Nat.lt_succ_self _
      · exact (h.created hs).trans (Nat.lt_succ_self _)
    · refine update_injective h.injective ?_
      rintro s p ⟨⟩ - hs
      exact (h.created hs).false

/-- A header changes no value. -/
theorem Separate.find_enter (h : cfg.Separate) (sec s k : Str) :
    (cfg.enter sec).1.find s k = cfg.find s k := by
  cases hmap : cfg.map sec with
  | some p => rw [enter_of_some hmap]
  | none =>
    rw [enter_of_none hmap, find, find]
    dsimp only
    rcases eq_or_ne s sec with rfl | hne
    · rw [Function.update_self, hmap, Option.bind_some, Option.bind_none, Function.update_self]
    · rw [Function.update_of_ne hne]
      cases hs : cfg.map s with
      | none => rfl
      | some p =>
        rw [Option.bind_some, Option.bind_some, Function.update_of_ne (h.created hs).ne]

theorem Separate.put (h : cfg.Separate) (p : ℕ) (k v : Str) : (cfg.put p k v).Separate :=
  ⟨h.created, h.injective⟩

/-- A key changes one value. -/
theorem Separate.find_put (h : cfg.Separate) {sec : Str} {p : ℕ} (hp : cfg.map sec = some p)
    (k v s' k' : Str) :
    (cfg.put p k v).find s' k' = if s' = sec ∧ k' = k then some v else cfg.find s' k' := by
  unfold ConfigFile.put find
  dsimp only
  rcases eq_or_ne s' sec with rfl | hne
  · rw [hp, Option.bind_some, Option.bind_some, Function.update_self, Function.update_apply]
    exact if_congr (and_iff_right rfl).symm rfl rfl
  · rw [if_neg fun hand => hne hand.1]
    cases hs : cfg.map s' with
    | none => rfl
    | some p' =>
      have hp' : p' ≠ p := by
        rintro rfl
        exact hne (h.injective hs hp)
      rw [Option.bind_some, Option.bind_some, Function.update_of_ne hp']

/-! ## What has been read -/

/-- After the lines `ls`: `m` is the map of the section the next line is in, and the maps have the
last values. -/
structure Reads (ls : List (Line Str Str Str)) (st : ConfigFile × Option ℕ) : Prop where
  separate : st.1.Separate
  current : ∀ {sec}, Under ls ls.length sec → ∃ p, st.1.map sec = some p ∧ st.2 = some p
  noSection : (¬ ∃ sec, Under ls ls.length sec) → st.2 = none
  find_eq_some : ∀ {sec k v}, st.1.find sec k = some v ↔ LastSets ls sec k v

theorem reads_nil : Reads [] ({}, none) where
  separate := separate_empty
  current := fun ⟨j, hj, _⟩ => absurd hj (Nat.not_lt_zero j)
  noSection := fun _ => rfl
  find_eq_some := by
    intro sec k v
    exact iff_of_false nofun fun ⟨i, hi, _⟩ => absurd hi.lt_length (Nat.not_lt_zero i)

variable {ls : List (Line Str Str Str)} {st : ConfigFile × Option ℕ}

theorem Reads.enter (h : Reads ls st) (sec : Str) :
    Reads (ls ++ [.header sec]) (st.1.enter sec) := by
  have hunder : ∀ {s}, Under (ls ++ [.header sec]) (ls ++ [Line.header sec]).length s ↔
      s = sec := by
    intro s
    rw [List.length_append, List.length_singleton]
    exact under_append_header
  refine ⟨h.separate.enter sec, fun hs => ?_, fun hs => ?_, fun {s k v} => ?_⟩
  · obtain rfl := hunder.mp hs
    exact enter_map _
  · exact absurd ⟨sec, hunder.mpr rfl⟩ hs
  · rw [h.separate.find_enter, h.find_eq_some, lastSets_append_of_not_assign]
    exact fun ⟨_, _, hl⟩ => nomatch hl

/-- Lines that are no headers leave the section. -/
theorem Reads.current_append {l : Line Str Str Str} (h : Reads ls st) (hl : ¬ l.IsHeader)
    {cfg : ConfigFile} (hmap : cfg.map = st.1.map) :
    (∀ {sec}, Under (ls ++ [l]) (ls ++ [l]).length sec →
      ∃ p, cfg.map sec = some p ∧ st.2 = some p) ∧
    ((¬ ∃ sec, Under (ls ++ [l]) (ls ++ [l]).length sec) → st.2 = none) := by
  rw [List.length_append, List.length_singleton]
  simp only [under_append_of_not_header hl, hmap]
  exact ⟨h.current, h.noSection⟩

theorem Reads.other (h : Reads ls st) : Reads (ls ++ [.other]) st := by
  have hl : ¬ (Line.other : Line Str Str Str).IsHeader := fun ⟨_, hl⟩ => nomatch hl
  obtain ⟨hcurrent, hno⟩ := h.current_append hl rfl
  refine ⟨h.separate, hcurrent, hno, fun {s k v} => ?_⟩
  rw [h.find_eq_some, lastSets_append_of_not_assign]
  exact fun ⟨_, _, hl⟩ => nomatch hl

theorem Reads.put (h : Reads ls st) {sec : Str} {p : ℕ} (hunder : Under ls ls.length sec)
    (hp : st.1.map sec = some p) (k v : Str) :
    Reads (ls ++ [.assign k v]) (st.1.put p k v, st.2) := by
  have hl : ¬ (Line.assign k v : Line Str Str Str).IsHeader := fun ⟨_, hl⟩ => nomatch hl
  obtain ⟨hcurrent, hno⟩ := h.current_append hl (show (st.1.put p k v).map = st.1.map from rfl)
  refine ⟨h.separate.put p k v, hcurrent, hno, fun {s' k' v'} => ?_⟩
  rw [h.separate.find_put hp, lastSets_append_assign hunder]
  split_ifs
  · rw [Option.some.injEq, eq_comm]
  · exact h.find_eq_some

/-- **A line is read**, unless it has a key and no header has come. -/
theorem Reads.loadLine (h : Reads ls st) {line : Str}
    (hline : (readLine line).IsAssign → ∃ sec, Under ls ls.length sec) :
    ∃ st', loadLine st line = .ok st' ∧ Reads (ls ++ [readLine line]) st' := by
  rw [loadLine_eq]
  cases hread : readLine line with
  | header sec => exact ⟨_, rfl, h.enter sec⟩
  | other => exact ⟨_, rfl, h.other⟩
  | assign k v =>
    obtain ⟨sec, hunder⟩ := hline ⟨k, v, hread⟩
    obtain ⟨p, hp, hm⟩ := h.current hunder
    exact ⟨_, by rw [hm], h.put hunder hp k v⟩

/-- A line with a key, and no header before it. -/
theorem Reads.loadLine_error (h : Reads ls st) {line : Str} (hline : (readLine line).IsAssign)
    (hno : ¬ ∃ sec, Under ls ls.length sec) : ConfigFile.loadLine st line = .error .nullMap := by
  obtain ⟨k, v, hread⟩ := hline
  rw [loadLine_eq, hread, h.noSection hno]

/-- The lines are read if the keys come after headers; else `m` is dereferenced while it is null. -/
theorem foldlM_loadLine (lines : List Str) :
    (Headed (lines.map readLine) →
      ∃ st, lines.foldlM ConfigFile.loadLine ({}, none) = .ok st ∧
        Reads (lines.map readLine) st) ∧
    (¬ Headed (lines.map readLine) →
      lines.foldlM ConfigFile.loadLine ({}, none) = .error .nullMap) := by
  induction lines using List.reverseRecOn with
  | nil => exact ⟨fun _ => ⟨_, rfl, reads_nil⟩, fun h => absurd nofun h⟩
  | append_singleton lines line ih =>
    obtain ⟨ihok, iherr⟩ := ih
    rw [List.map_append, List.map_singleton, List.foldlM_append, headed_append]
    by_cases hlines : Headed (lines.map readLine)
    · obtain ⟨st, hst, hreads⟩ := ihok hlines
      rw [hst, ok_bind, List.foldlM_cons]
      simp only [List.foldlM_nil]
      constructor
      · rintro ⟨-, hline⟩
        obtain ⟨st', hst', hreads'⟩ := hreads.loadLine hline
        exact ⟨st', by rw [hst']; rfl, hreads'⟩
      · intro h
        obtain ⟨hassign, hno⟩ := Classical.not_imp.mp fun hline => h ⟨hlines, hline⟩
        rw [hreads.loadLine_error hassign hno]
        rfl
    · refine ⟨fun h => absurd h.1 hlines, fun _ => ?_⟩
      rw [iherr hlines]
      rfl

/-! ## `Load` -/

/-- A file whose keys come after headers is read. -/
theorem load_of_headed {content : Str} (h : Headed (grammar content)) :
    ∃ st, load (some content) {} = .ok (true, st.1) ∧ Reads (grammar content) st := by
  obtain ⟨st, hst, hreads⟩ := (foldlM_loadLine (content.splitOn newline)).1 h
  refine ⟨st, ?_, hreads⟩
  have hloop := loop_eq_foldlM content ({}, none)
  rw [hst, ok_bind] at hloop
  rw [load, hloop, ok_bind]

/-- With other files `Load` dereferences a null pointer. -/
theorem load_of_not_headed {content : Str} (h : ¬ Headed (grammar content)) :
    load (some content) {} = .error .nullMap := by
  have hloop := loop_eq_foldlM content ({}, none)
  rw [(foldlM_loadLine (content.splitOn newline)).2 h, error_bind] at hloop
  rw [load, hloop, error_bind]

/-- **What is read**: after `Load`, `GetString` gives what the last line for the key in the section
says, and the default if there is none. -/
theorem load_reads {content : Str} (h : Headed (grammar content)) :
    ∃ cfg, load (some content) {} = .ok (true, cfg) ∧ ∀ sec key defaultValue,
      (∀ v, LastSets (grammar content) sec key v → cfg.getString sec key defaultValue = v) ∧
      ((∀ i v, ¬ Sets (grammar content) i sec key v) →
        cfg.getString sec key defaultValue = defaultValue) := by
  obtain ⟨st, hload, hreads⟩ := load_of_headed h
  refine ⟨st.1, hload, fun sec key defaultValue => ⟨fun v hv => ?_, fun hno => ?_⟩⟩
  · rw [getString_eq, hreads.find_eq_some.mpr hv, Option.getD_some]
  · have hnone : st.1.find sec key = none := by
      rw [Option.eq_none_iff_forall_ne_some]
      intro v hv
      obtain ⟨i, hi, -⟩ := hreads.find_eq_some.mp hv
      exact hno i v hi
    rw [getString_eq, hnone, Option.getD_none]

/-- A section that comes twice with a key that comes twice, a line left out, and a section with a
value that has an `=`. -/
def sample : Str :=
  [newline].intercalate [['[', 'a', ']'].map ch, ['b', '=', 'c'].map ch,
    ['#', 'b', '=', 'e'].map ch, ['[', 'd', ']'].map ch, ['b', ' ', '=', ' ', '1', '=', '2'].map ch,
    ['[', 'a', ']'].map ch, ['b', '=', 'f'].map ch]

theorem grammar_sample : grammar sample =
    [.header [ch 'a'], .assign [ch 'b'] [ch 'c'], .other, .header [ch 'd'],
      .assign [ch 'b'] [ch '1', ch '=', ch '2'], .header [ch 'a'], .assign [ch 'b'] [ch 'f']] := by
  rfl

theorem headed_sample : Headed (grammar sample) := by
  rintro (_ | i) k v hi
  · rw [grammar_sample] at hi
    cases hi
  · exact ⟨0, Nat.succ_pos i, [ch 'a'], by rw [grammar_sample]; rfl⟩

/-- The last value in each section is read, and the default for the key of the comment. -/
theorem load_reads_sample : ∃ cfg, load (some sample) {} = .ok (true, cfg) ∧
    cfg.getString [ch 'a'] [ch 'b'] [] = [ch 'f'] ∧
    cfg.getString [ch 'd'] [ch 'b'] [] = [ch '1', ch '=', ch '2'] ∧
    cfg.getString [ch 'a'] [ch '#', ch 'b'] [] = [] := by
  obtain ⟨cfg, hload, hget⟩ := load_reads headed_sample
  rw [grammar_sample] at hget
  refine ⟨cfg, hload, (hget _ _ _).1 _ ⟨6, ⟨rfl, 5, by decide, rfl, fun j _ _ => by omega⟩, ?_⟩,
    (hget _ _ _).1 _ ⟨4, ⟨rfl, 3, by decide, rfl, fun j _ _ => by omega⟩, ?_⟩, (hget _ _ _).2 ?_⟩
  · intro j hj v hsets
    exact absurd hsets.lt_length (not_lt.mpr hj)
  · intro j hj v hsets
    have hlt : j < 7 := hsets.lt_length
    obtain ⟨hline, hunder⟩ := hsets
    obtain rfl | rfl : j = 5 ∨ j = 6 := by omega
    · cases hline
    · -- the last line is in the other section
      have hsec := hunder.unique ⟨5, by decide, rfl, fun j _ _ => by omega⟩
      exact absurd hsec (by decide)
  · intro j v hsets
    have hline := List.mem_of_getElem? hsets.1
    simp [ch] at hline

/-- **A file crashes `Load`** if and only if a line with a key has no header before it. -/
theorem loads_iff (content : Str) :
    (∃ cfg, load (some content) {} = .ok (true, cfg)) ↔ Headed (grammar content) := by
  constructor
  · rintro ⟨cfg, hload⟩
    by_contra h
    rw [load_of_not_headed h] at hload
    cases hload
  · intro h
    obtain ⟨st, hload, -⟩ := load_of_headed h
    exact ⟨st.1, hload⟩

/-- A key in the first line. -/
theorem not_loads : ¬ ∀ content, ∃ cfg, load (some content) {} = .ok (true, cfg) := by
  intro h
  obtain ⟨cfg, hload⟩ := h [ch 'a', ch '=', ch '1']
  have hlines : grammar [ch 'a', ch '=', ch '1'] = [.assign [ch 'a'] [ch '1']] := by rfl
  have hnot : ¬ Headed (grammar [ch 'a', ch '=', ch '1']) := by
    rw [hlines]
    intro hhead
    obtain ⟨j, hj, -⟩ := hhead 0 _ _ rfl
    exact absurd hj (Nat.not_lt_zero j)
  rw [load_of_not_headed hnot] at hload
  cases hload

end ConfigFile

end Lars.Reactor
