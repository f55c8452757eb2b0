import Lars.Reactor.ConfigGrammar
import Lars.Reactor.StringList

/-!
# Configuration files that are written

A configuration file is written a header or a setting to a line, and read by `config_file`
(`lars_reactor/src/config_file.cc`), which turns the texts of values into numbers, booleans and
lists only when they are asked for.

* What the lines have been written for is what they say (`grammar_write`), if names and values have
  no white space at their ends and cannot be taken for something else (`Writable`).
* Strings and lists of words are read as they were written. A number is read modulo 2^32, and the
  boolean `false` is read as the default (`load_write`).
-/

namespace Lars.Reactor

open Machine Sections Tokens Decimal

/-! ## Lines -/

/-- There is no white space at the ends. -/
def Bare (s : Str) : Prop := s.head?.any isspace = false ∧ s.getLast?.any isspace = false

/-- A line that can be written: the names and values are bare and on one line, a section has a name,
a key ends at the first `=`, and no setting looks like a header. -/
def Writable : Line Str Str Str → Prop
  | .header sec => sec ≠ [] ∧ Bare sec ∧ newline ∉ sec
  | .assign key value =>
    IsKey key ∧ Bare key ∧ ch '=' ∉ key ∧ newline ∉ key ∧ Bare value ∧ newline ∉ value ∧
      ¬ (key.head? = some (ch '[') ∧ value.getLast? = some (ch ']'))
  | .other => True

instance instDecidableBare (s : Str) : Decidable (Bare s) := inferInstanceAs (Decidable (_ ∧ _))

instance instDecidableWritable : DecidablePred Writable
  | .header _ => inferInstanceAs (Decidable (_ ∧ _))
  | .assign _ _ => inferInstanceAs (Decidable (_ ∧ _))
  | .other => inferInstanceAs (Decidable True)

/-- A line as it is written. -/
def writeLine : Line Str Str Str → Str
  | .header sec => ch '[' :: (sec ++ [ch ']'])
  | .assign key value => key ++ ch '=' :: value
  | .other => []

/-- A file as it is written. -/
def write (ls : List (Line Str Str Str)) : Str := ls.flatMap fun l => writeLine l ++ [newline]

theorem trimmed_of_bare {s : Str} (h : Bare s) : trimmed s = s := by
  have hright : s.rdropWhile isspace = s := by
    refine List.rdropWhile_eq_self_iff.mpr fun hne => ?_
    have hlast := h.2
    rw [List.getLast?_eq_getLast_of_ne_nil hne, Option.any_some] at hlast
    rw [hlast]
    exact Bool.false_ne_true
  rw [trimmed, hright]
  cases s with
  | nil => rfl
  | cons c s => exact List.dropWhile_cons_of_neg (Bool.not_eq_true _ |>.mpr h.1)

theorem Bare.append {s t : Str} (hs : s.head?.any isspace = false)
    (ht : t.getLast?.any isspace = false) (hsne : s ≠ []) (htne : t ≠ []) :
    Bare (s ++ t) := by
  constructor
  · rwa [List.head?_append_of_ne_nil s hsne]
  · rwa [List.getLast?_append_of_ne_nil s htne]

/-- A header is read as it is written. -/
theorem readLine_writeLine_header {sec : Str} (h : Writable (.header sec)) :
    readLine (writeLine (.header sec)) = .header sec := by
  obtain ⟨hne, hbare, -⟩ := h
  have hlast : (sec ++ [ch ']']).getLast?.any isspace = false := by
    rw [List.getLast?_concat]
    rfl
  have htrim : trimmed (ch '[' :: (sec ++ [ch ']'])) = ch '[' :: (sec ++ [ch ']']) :=
    trimmed_of_bare (Bare.append (s := [ch '[']) rfl hlast (List.cons_ne_nil _ _) (by simp))
  have hlen := List.length_pos_iff.mpr hne
  have hheader : IsHeaderLine (ch '[' :: (sec ++ [ch ']'])) := by
    rw [IsHeaderLine, htrim]
    refine ⟨?_, rfl, ?_⟩
    · rw [List.length_cons, List.length_append, List.length_singleton]
      omega
    · rw [← List.cons_append, List.getLast?_concat]
  rw [writeLine, readLine, if_pos hheader, htrim, List.tail_cons, List.dropLast_concat,
    trimmed_of_bare hbare]

/-- A setting is read as it is written. -/
theorem readLine_writeLine_assign {key value : Str} (h : Writable (.assign key value)) :
    readLine (writeLine (.assign key value)) = .assign key value := by
  obtain ⟨hkey, hkbare, heq, -, hvbare, -, hheader⟩ := h
  have hlast : (ch '=' :: value).getLast?.any isspace = false := by
    cases hvalue : value with
    | nil => rfl
    | cons c s =>
      rw [List.getLast?_cons_cons, ← hvalue]
      exact hvbare.2
  have htrim : trimmed (key ++ ch '=' :: value) = key ++ ch '=' :: value :=
    trimmed_of_bare (Bare.append hkbare.1 hlast hkey.1 (List.cons_ne_nil _ _))
  have hnot : ¬ IsHeaderLine (key ++ ch '=' :: value) := by
    rw [IsHeaderLine, htrim, List.head?_append_of_ne_nil _ hkey.1,
      List.getLast?_append_of_ne_nil _ (List.cons_ne_nil _ _)]
    rintro ⟨-, hhead, hend⟩
    refine hheader ⟨hhead, ?_⟩
    cases hvalue : value with
    | nil =>
      rw [hvalue] at hend
      cases hend
    | cons c s => rwa [hvalue, List.getLast?_cons_cons] at hend
  have hmem : ch '=' ∈ key ++ ch '=' :: value := List.mem_append_right _ List.mem_cons_self
  have hne : ∀ c ∈ key, (decide (c ≠ ch '=')) = true := fun c hc =>
    decide_eq_true (ne_of_mem_of_not_mem hc heq)
  have htake : (key ++ ch '=' :: value).takeWhile (· ≠ ch '=') = key := by
    rw [List.takeWhile_append_of_pos hne, List.takeWhile_cons_of_neg (by simp), List.append_nil]
  have hdrop : (key ++ ch '=' :: value).dropWhile (· ≠ ch '=') = ch '=' :: value := by
    rw [List.dropWhile_append_of_pos hne, List.dropWhile_cons_of_neg (by simp)]
  rw [writeLine, readLine, if_neg hnot, htake, hdrop, List.tail_cons, trimmed_of_bare hkbare,
    trimmed_of_bare hvbare, if_pos ⟨hmem, hkey⟩]

theorem readLine_writeLine {l : Line Str Str Str} (h : Writable l) :
    readLine (writeLine l) = l := by
  cases l with
  | header sec => exact readLine_writeLine_header h
  | assign key value => exact readLine_writeLine_assign h
  | other => rfl

theorem newline_notMem_writeLine {l : Line Str Str Str} (h : Writable l) :
    newline ∉ writeLine l := by
  cases l with
  | header sec =>
    obtain ⟨-, -, hsec⟩ := h
    simp only [writeLine, List.mem_cons, List.mem_append, List.not_mem_nil, or_false, not_or]
    exact ⟨by decide, hsec, by decide⟩
  | assign key value =>
    obtain ⟨-, -, -, hkey, -, hvalue, -⟩ := h
    simp only [writeLine, List.mem_cons, List.mem_append, not_or]
    exact ⟨hkey, by decide, hvalue⟩
  | other => exact List.not_mem_nil

variable {ls : List (Line Str Str Str)}

/-- **What is written** is what the file says, but for the empty line at its end. -/
theorem grammar_write (h : ∀ l ∈ ls, Writable l) : grammar (write ls) = ls ++ [.other] := by
  induction ls with
  | nil => rfl
  | cons l ls ih =>
    obtain ⟨hl, hls⟩ := List.forall_mem_cons.mp h
    have hsplit : (write (l :: ls)).splitOn newline =
        writeLine l :: (write ls).splitOn newline := by
      rw [write, List.flatMap_cons, List.append_assoc, List.singleton_append]
      exact List.splitOn_append_cons_self_of_not_mem (newline_notMem_writeLine hl) _
    rw [grammar, hsplit, List.map_cons, readLine_writeLine hl, List.cons_append]
    exact congrArg (l :: ·) (ih hls)

/-! ## Values -/

/-- A boolean as it is written. -/
def boolText (b : Bool) : Str := if b then text "true" else text "false"

/-- A list as it is written. -/
def listText (v : List Str) : Str := [ch ',', ch ' '].intercalate v

/-- Words without separators, and at least one. -/
def IsWords (v : List Str) : Prop :=
  v ≠ [] ∧ ∀ w ∈ v, w ≠ [] ∧ ∀ c ∈ w, ConfigFile.sep.contains c = false

namespace ConfigFile

variable {cfg : ConfigFile} {sec key : Str}

theorem getNumber_eq (defaultValue : UInt32) :
    cfg.getNumber sec key defaultValue =
      ((cfg.find sec key).map parseNumber).getD defaultValue := by
  unfold getNumber find
  cases cfg.map sec with
  | none => rfl
  | some p =>
    dsimp only [Option.bind_some]
    cases cfg.maps p key <;> rfl

theorem getBool_eq (defaultValue : Bool) :
    cfg.getBool sec key defaultValue =
      ((cfg.find sec key).any (fun s => strcaseeq (cStr s) (text "true")) || defaultValue) := by
  unfold getBool find
  cases cfg.map sec with
  | none => rfl
  | some p =>
    dsimp only [Option.bind_some]
    cases cfg.maps p key with
    | none => rfl
    | some s =>
      dsimp only [Option.any_some]
      cases strcaseeq (cStr s) (text "true") <;> rfl

theorem getStringList_listText {v : List Str} (hv : IsWords v)
    (h : cfg.getString sec key [] = listText v) : cfg.getStringList sec key = .ok v := by
  obtain ⟨hne, hwords⟩ := hv
  have htokens : IsTokens sep.contains (listText v) v :=
    isTokens_intercalate (List.cons_ne_nil _ _)
      (List.forall_mem_cons.mpr ⟨rfl, List.forall_mem_singleton.mpr rfl⟩) hwords
  have hstart : StartsWithWord (listText v) := by
    cases v with
    | nil => exact absurd rfl hne
    | cons w v =>
      obtain ⟨⟨hw, hword⟩, -⟩ := List.forall_mem_cons.mp hwords
      obtain ⟨c, r, rfl⟩ := List.exists_cons_of_ne_nil hw
      exact ⟨c, _, List.intercalate_cons_cons_left, hword c List.mem_cons_self⟩
  obtain ⟨v', hlist, htokens'⟩ := cfg.getStringList_of_word sec key (h ▸ hstart)
  rw [h] at htokens'
  rw [hlist, htokens'.unique htokens]

/-! ## Files -/

/-- What is read for a key of the settings written. -/
structure ReadsBack (ls : List (Line Str Str Str)) (cfg : ConfigFile) (sec key : Str) : Prop where
  string {s : Str} (h : LastSets ls sec key s) (defaultValue : Str) :
    cfg.getString sec key defaultValue = s
  /-- A `long long`, or the nearest one, is taken for an `unsigned`. -/
  number {z : ℤ} (h : LastSets ls sec key (decimal z)) (defaultValue : UInt32) :
    cfg.getNumber sec key defaultValue = UInt32.ofInt (clampLong z)
  bool {b : Bool} (h : LastSets ls sec key (boolText b)) (defaultValue : Bool) :
    cfg.getBool sec key defaultValue = (b || defaultValue)
  list {v : List Str} (h : LastSets ls sec key (listText v)) (hv : IsWords v) :
    cfg.getStringList sec key = .ok v
  missing (h : ∀ i s, ¬ Sets ls i sec key s) :
    (∀ s, cfg.getString sec key s = s) ∧ (∀ n, cfg.getNumber sec key n = n) ∧
      (∀ b, cfg.getBool sec key b = b) ∧ cfg.getStringList sec key = .ok [[]]

/-- **A file that has been written** is read without a crash, and gives what was written. -/
theorem load_write (hwritable : ∀ l ∈ ls, Writable l) (hheaded : Headed ls) :
    ∃ cfg, load (some (write ls)) {} = .ok (true, cfg) ∧ ∀ sec key, ReadsBack ls cfg sec key := by
  have hother : ¬ (Line.other : Line Str Str Str).IsAssign := fun ⟨_, _, h⟩ => nomatch h
  have hgrammar := grammar_write hwritable
  have hhead : Headed (grammar (write ls)) := by
    rw [hgrammar, headed_append]
    exact ⟨hheaded, fun h => absurd h hother⟩
  obtain ⟨st, hload, hreads⟩ := load_of_headed hhead
  refine ⟨st.1, hload, fun sec key => ?_⟩
  have hfind : ∀ {s}, LastSets ls sec key s → st.1.find sec key = some s := by
    intro s hs
    rwa [hreads.find_eq_some, hgrammar, lastSets_append_of_not_assign hother]
  have hstring : ∀ {s}, LastSets ls sec key s → ∀ d, st.1.getString sec key d = s := by
    intro s hs d
    rw [getString_eq, hfind hs, Option.getD_some]
  constructor
  · exact hstring
  · intro z hz d
    rw [getNumber_eq, hfind hz, Option.map_some, Option.getD_some, parseNumber, strtol_decimal]
  · intro b hb d
    rw [getBool_eq, hfind hb, Option.any_some]
    cases b <;> rfl
  · exact fun hv hwords => getStringList_listText hwords (hstring hv [])
  · intro hno
    have hnone : st.1.find sec key = none := by
      refine Option.eq_none_iff_forall_ne_some.mpr fun s hs => ?_
      rw [hreads.find_eq_some, hgrammar, lastSets_append_of_not_assign hother] at hs
      obtain ⟨i, hi, -⟩ := hs
      exact hno i s hi
    have hempty : st.1.getString sec key [] = [] := by
      rw [getString_eq, hnone, Option.getD_none]
    refine ⟨fun s => ?_, fun n => ?_, fun b => ?_, ?_⟩
    · rw [getString_eq, hnone, Option.getD_none]
    · rw [getNumber_eq, hnone, Option.map_none, Option.getD_none]
    · rw [getBool_eq, hnone, Option.any_none, Bool.false_or]
    · refine loop_leave _ ?_
      rw [hempty]
      rfl

/-- A section with a number, a port that is set twice, and a list. -/
def written : List (Line Str Str Str) :=
  [.header (text "reactor"), .assign (text "port") (decimal 7778), .other,
    .assign (text "port") (decimal (-1)), .assign (text "ips") (listText [text "::1", text "0"])]

theorem load_write_written :
    ∃ cfg, load (some (write written)) {} = .ok (true, cfg) ∧
      (∀ sec key, ReadsBack written cfg sec key) ∧
      cfg.getNumber (text "reactor") (text "port") 7778 = 4294967295 := by
  have hheaded : Headed written := by
    rintro (_ | i) k v hi
    · cases hi
    · exact ⟨0, Nat.succ_pos i, _, rfl⟩
  obtain ⟨cfg, hload, hreads⟩ := load_write (by decide) hheaded
  have hport : LastSets written (text "reactor") (text "port") (decimal (-1)) := by
    refine ⟨3, ⟨rfl, 0, by decide, rfl, fun j hj hj' sec hsec => ?_⟩, fun j hj v hv => ?_⟩
    · obtain rfl | rfl : j = 1 ∨ j = 2 := by omega
      · cases hsec
      · cases hsec
    · have hlt : j < 5 := hv.lt_length
      obtain rfl : j = 4 := by omega
      cases hv.1
  exact ⟨cfg, hload, hreads, (hreads _ _).number hport _⟩

end ConfigFile

end Lars.Reactor
