import Mathlib.Data.List.GetD
import Lars.Foundations.Decimal
import Lars.Foundations.Loop
import Lars.Foundations.Run

/-!
# Configuration files

`config_file::Load` (`lars_reactor/src/config_file.cc`) reads a file line by line. It keeps a
pointer to the map of the section it is in, which is null until it has come to a header, and does
not look whether it is null when it comes to a key.

A pass of its loop takes a line off what is left of the file, or meets its end, so that the loop
ends (`loadBody_decreases`).
-/

namespace Lars.Reactor

open Machine Decimal

/-- A `std::string`. -/
abbrev Str := List UInt8

/-- A character. -/
def ch (c : Char) : UInt8 := c.toUInt8

/-- The end of a line. -/
def newline : UInt8 := 10

/-- How `Load` can crash. -/
inductive LoadHalt
  /-- `m` is dereferenced while it is null. -/
  | nullMap
  /-- `at` or `substr` throws `std::out_of_range`. -/
  | outOfRange
  deriving DecidableEq

/-! ## Strings -/

/-- `isspace`, in the "C" locale. -/
def isspace (c : UInt8) : Bool := c == 32 || (9 ≤ c && c ≤ 13)

/-- `s.substr(pos, n)`. -/
def substr (s : Str) (pos n : ℕ) : Except LoadHalt Str :=
  if s.length < pos then .error .outOfRange else .ok ((s.drop pos).take n)

/-- `s.substr(pos)`. -/
def substrFrom (s : Str) (pos : ℕ) : Except LoadHalt Str :=
  if s.length < pos then .error .outOfRange else .ok (s.drop pos)

/-- `s.at(i)`. -/
def charAt (s : Str) (i : ℕ) : Except LoadHalt UInt8 :=
  match s[i]? with
  | none => .error .outOfRange
  | some c => .ok c

/-- The loop of `trimLeft`: `first_not_empty`, with the iterator at the start of the string. -/
def firstNotEmpty : Str → ℕ
  | [] => 0
  | c :: s => if isspace c then firstNotEmpty s + 1 else 0

/-- The loop of `trimRight`: `last_not_empty`, with the iterator at an index. -/
def lastNotEmpty (s : Str) : ℕ → ℕ
  | 0 => 0
  | i + 1 => if isspace (s.getD i 0) then lastNotEmpty s i else i + 1

/-- `config_file::trimLeft`. -/
def trimLeft (s : Str) : Except LoadHalt Str := substrFrom s (firstNotEmpty s)

/-- `config_file::trimRight`. -/
def trimRight (s : Str) : Except LoadHalt Str := substr s 0 (lastNotEmpty s s.length)

/-- `config_file::trim`. -/
def trim (s : Str) : Except LoadHalt Str := do
  let s ← trimRight s
  trimLeft s

/-- `strtol` in base ten, and what a stream extracts for a `long long`. -/
def strtol (s : Str) : ℤ := readLong isspace s

theorem strtol_decimal (z : ℤ) : strtol (decimal z) = clampLong z := by
  refine readLong_decimal (fun c hc => ?_) z
  have h13 : (13 : UInt8).toNat = 13 := rfl
  have h32 : (32 : UInt8).toNat = 32 := rfl
  have hlo : 33 ≤ c.toNat := by
    rcases hc with hdigit | rfl
    · simp only [isDigit, Bool.and_eq_true, decide_eq_true_eq, UInt8.le_iff_toNat_le] at hdigit
      have h48 : 48 ≤ c.toNat := hdigit.1
      omega
    · decide
  simp only [isspace, Bool.or_eq_false_iff, beq_eq_false_iff_ne, ne_eq, Bool.and_eq_false_iff,
    decide_eq_false_iff_not, UInt8.le_iff_toNat_le, ← UInt8.toNat_inj]
  omega

/-- `s.c_str()`: the string up to the first null character. -/
def cStr (s : Str) : Str := s.takeWhile (· ≠ 0)

/-- `tolower`, in the "C" locale. -/
def tolower (c : UInt8) : UInt8 := if 65 ≤ c && c ≤ 90 then c + 32 else c

/-- `strcasecmp(s, t) == 0`. -/
def strcaseeq (s t : Str) : Bool := s.map tolower == t.map tolower

/-- `config_file::parseNumber`. -/
def parseNumber (s : Str) : UInt32 := UInt32.ofInt (strtol s)

/-- `config_file::isSection`: the value returned, and `section`. -/
def isSection (line : Str) : Except LoadHalt (Bool × Str) := do
  let name ← trim line
  if name.isEmpty || name.length ≤ 2 then .ok (false, name)
  else
    let first ← charAt name 0
    if first ≠ ch '[' then .ok (false, name)
    else
      let last ← charAt name (name.length - 1)
      if last ≠ ch ']' then .ok (false, name)
      else
        let name ← substr name 1 (name.length - 2)
        let name ← trim name
        .ok (true, name)

/-! ## Loading -/

/-- `config_file`: `_map`, whose maps are numbered in the order in which they are made, and what is
in them. -/
structure ConfigFile where
  map : Str → Option ℕ := fun _ => none
  maps : ℕ → Str → Option Str := fun _ _ => none
  created : ℕ := 0

namespace ConfigFile

/-- `config_file::GetString`. -/
def getString (cfg : ConfigFile) (sec key defaultValue : Str) : Str :=
  match cfg.map sec with
  | none => defaultValue
  | some p => (cfg.maps p key).getD defaultValue

/-- `config_file::GetNumber`. -/
def getNumber (cfg : ConfigFile) (sec key : Str) (defaultValue : UInt32) : UInt32 :=
  match cfg.map sec with
  | none => defaultValue
  | some p =>
    match cfg.maps p key with
    | none => defaultValue
    | some s => parseNumber s

/-- `config_file::GetBool`. -/
def getBool (cfg : ConfigFile) (sec key : Str) (defaultValue : Bool) : Bool :=
  match cfg.map sec with
  | none => defaultValue
  | some p =>
    match cfg.maps p key with
    | none => defaultValue
    | some s => if strcaseeq (cStr s) (text "true") then true else defaultValue

/-- A header: `m` and the maps. -/
def enter (cfg : ConfigFile) (sec : Str) : ConfigFile × Option ℕ :=
  match cfg.map sec with
  | none =>
    ({ map := Function.update cfg.map sec (some cfg.created)
       maps := Function.update cfg.maps cfg.created fun _ => none
       created := cfg.created + 1 }, some cfg.created)
  | some p => (cfg, some p)

/-- `(*m)[key] = value`. -/
def put (cfg : ConfigFile) (p : ℕ) (key value : Str) : ConfigFile :=
  { cfg with maps := Function.update cfg.maps p (Function.update (cfg.maps p) key (some value)) }

/-- A pass of the loop of `Load`, on a line. -/
def loadLine (st : ConfigFile × Option ℕ) (line : Str) :
    Except LoadHalt (ConfigFile × Option ℕ) := do
  let (isHeader, sec) ← isSection line
  if isHeader then .ok (st.1.enter sec)
  else
    match line.findIdx? (· == ch '=') with
    | none => .ok st
    | some equPos => do
      let key ← substr line 0 equPos
      let value ← substrFrom line (equPos + 1)
      let key ← trim key
      let value ← trim value
      match key with
      | [] => .ok st
      | c :: _ =>
        if c = ch '#' ∨ c = ch ';' then .ok st
        else
          match st.2 with
          | none => .error .nullMap
          | some p => .ok (st.1.put p key value, st.2)

/-- `getline`: the line, what is left, and whether the end of the file has been met. -/
def getline : Str → Str × Str × Bool
  | [] => ([], [], true)
  | c :: s =>
    if c = newline then ([], s, false)
    else
      let (line, rest, eof) := getline s
      (c :: line, rest, eof)

/-- The state of the loop of `Load`. -/
structure Loading where
  rest : Str
  eof : Bool
  cfg : ConfigFile
  m : Option ℕ

/-- The body of the loop of `Load`. The stream is good until it has met the end of the file. -/
def loadBody (s : Loading) : Except LoadHalt (Pass Loading ConfigFile) :=
  if !s.eof then do
    let (line, rest, eof) := getline s.rest
    let (cfg, m) ← loadLine (s.cfg, s.m) line
    .ok (.next ⟨rest, eof, cfg, m⟩)
  else .ok (.leave s.cfg)

theorem length_getline_lt {s line rest : Str} {eof : Bool} (h : getline s = (line, rest, eof)) :
    rest.length + (if eof then 0 else 1) < s.length + 1 := by
  induction s generalizing line rest eof with
  | nil =>
    cases h
    decide
  | cons c s ih =>
    unfold getline at h
    split_ifs at h
    · cases h
      simp
    · cases h
      have := ih rfl
      rw [List.length_cons]
      omega

theorem loadBody_decreases :
    Decreases loadBody fun s => s.rest.length + if s.eof then 0 else 1 := by
  rintro ⟨rest, eof, cfg, m⟩ s' h
  unfold loadBody at h
  cases eof with
  | true => cases h
  | false =>
    rcases hline : getline rest with ⟨line, rest', eof'⟩
    simp only [Bool.not_false, if_true, hline] at h
    obtain ⟨st, -, h⟩ := bind_eq_ok.mp h
    cases h
    exact length_getline_lt hline

/-- `config_file::Load`; `none` is a file that cannot be opened. -/
def load (file : Option Str) (cfg : ConfigFile) : Except LoadHalt (Bool × ConfigFile) :=
  match file with
  | none => .ok (false, cfg)
  | some content => do
    let cfg ← loop loadBody loadBody_decreases ⟨content, false, cfg, none⟩
    .ok (true, cfg)

end ConfigFile

end Lars.Reactor
