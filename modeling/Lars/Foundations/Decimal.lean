import Mathlib.Algebra.Order.Ring.Int
import Mathlib.Data.List.TakeWhile
import Mathlib.Data.Int.Notation

/-!
# Numbers in texts

Texts are lists of bytes. A number is written in decimal digits, with a sign if it is negative, and
read back up to the first byte that is not a digit (`readDecimal_append`). A text is put together
from characters and numbers (`print`); where every number is followed by a character that is not a
digit, or ends the text, the numbers can be read off it (`scan_print`).
-/

namespace Lars.Decimal

/-- The bytes of a text of ASCII characters. -/
def text (s : String) : List UInt8 := s.toList.map Char.toUInt8

/-! ## Digits -/

def isDigit (c : UInt8) : Bool := 48 ≤ c && c ≤ 57

/-- The digits of a number, the highest first. -/
def digits (n : ℕ) : List UInt8 := (Nat.toDigits 10 n).map Char.toUInt8

/-- The number that digits stand for. -/
def value (l : List UInt8) : ℕ := l.foldl (fun v c => 10 * v + (c.toNat - 48)) 0

theorem toNat_toUInt8_of_isDigit {c : Char} (h : c.isDigit = true) :
    c.toUInt8.toNat = c.toNat ∧ 48 ≤ c.toNat ∧ c.toNat ≤ 57 := by
  simp only [Char.isDigit, Bool.and_eq_true, decide_eq_true_eq, ge_iff_le, UInt32.le_iff_toNat_le]
    at h
  have hlo : 48 ≤ c.toNat := h.1
  have hhi : c.toNat ≤ 57 := h.2
  refine ⟨?_, hlo, hhi⟩
  change c.toNat % 256 = c.toNat
  omega

theorem isDigit_of_mem_digits {n : ℕ} {c : UInt8} (h : c ∈ digits n) : isDigit c = true := by
  obtain ⟨d, hd, rfl⟩ := List.mem_map.mp h
  obtain ⟨heq, hlo, hhi⟩ := toNat_toUInt8_of_isDigit
    (Nat.isDigit_of_mem_toDigits (by decide) (by decide) hd)
  simp only [isDigit, Bool.and_eq_true, decide_eq_true_eq, UInt8.le_iff_toNat_le, heq]
  exact ⟨hlo, hhi⟩

theorem digits_ne_nil (n : ℕ) : digits n ≠ [] := fun h =>
  Nat.toDigits_ne_nil (List.map_eq_nil_iff.mp h)

/-- Digits stand for their number. -/
theorem value_digits (n : ℕ) : value (digits n) = n := by
  have hfold : ∀ (l : List Char) (v : ℕ), (∀ c ∈ l, c.isDigit = true) →
      (l.map Char.toUInt8).foldl (fun v c => 10 * v + (c.toNat - 48)) v =
        l.foldl (fun v c => 10 * v + (c.toNat - '0'.toNat)) v := by
    intro l
    induction l with
    | nil => exact fun _ _ => rfl
    | cons c l ih =>
      intro v hl
      rw [List.map_cons, List.foldl_cons, List.foldl_cons,
        (toNat_toUInt8_of_isDigit (hl c List.mem_cons_self)).1]
      exact ih _ fun d hd => hl d (List.mem_cons_of_mem _ hd)
  have hdigits : ∀ c ∈ Nat.toDigits 10 n, c.isDigit = true := fun c hc =>
    Nat.isDigit_of_mem_toDigits (by decide) (by decide) hc
  rw [value, digits, hfold _ 0 hdigits, ← Nat.ofDigitChars_eq_foldl,
    Nat.ofDigitChars_toDigits (by decide) (by decide)]

theorem length_digits_le {n k : ℕ} (hk : 0 < k) (h : n < 10 ^ k) : (digits n).length ≤ k := by
  rw [digits, List.length_map]
  exact (Nat.length_toDigits_le_iff (by decide) hk).mpr h

/-! ## Numbers with a sign -/

/-- The minus sign. -/
def minus : UInt8 := 45

/-- The plus sign. -/
def plus : UInt8 := 43

/-- A number as it is written. -/
def decimal (z : ℤ) : List UInt8 :=
  if z < 0 then minus :: digits z.natAbs else digits z.natAbs

theorem decimal_natCast (n : ℕ) : decimal n = digits n := by
  rw [decimal, if_neg (by omega), Int.natAbs_natCast]

/-- Digits in front of a text, and the text behind them. -/
def readDigits (l : List UInt8) : ℕ × List UInt8 :=
  (value (l.takeWhile isDigit), l.dropWhile isDigit)

/-- A number in front of a text, and the text behind it. -/
def readDecimal : List UInt8 → ℤ × List UInt8
  | [] => (0, [])
  | c :: l =>
    if c = minus then (-(readDigits l).1, (readDigits l).2)
    else if c = plus then ((readDigits l).1, (readDigits l).2)
    else ((readDigits (c :: l)).1, (readDigits (c :: l)).2)

/-- The text does not go on with a digit. -/
def EndsNumber (l : List UInt8) : Prop := ∀ c ∈ l.head?, isDigit c = false

theorem readDigits_append (n : ℕ) {rest : List UInt8} (h : EndsNumber rest) :
    readDigits (digits n ++ rest) = (n, rest) := by
  have hall : ∀ c ∈ digits n, isDigit c = true := fun _ hc => isDigit_of_mem_digits hc
  have htake : rest.takeWhile isDigit = [] ∧ rest.dropWhile isDigit = rest := by
    cases rest with
    | nil => exact ⟨rfl, rfl⟩
    | cons c rest =>
      have hc : isDigit c = false := h c rfl
      simp [hc]
  rw [readDigits, List.takeWhile_append_of_pos hall, List.dropWhile_append_of_pos hall, htake.1,
    htake.2, List.append_nil, value_digits]

/-- **A number is read as it is written.** -/
theorem readDecimal_append (z : ℤ) {rest : List UInt8} (h : EndsNumber rest) :
    readDecimal (decimal z ++ rest) = (z, rest) := by
  have hread := readDigits_append z.natAbs h
  unfold decimal
  split_ifs with hneg
  · rw [List.cons_append, readDecimal, if_pos rfl, hread]
    refine Prod.ext ?_ rfl
    change -(z.natAbs : ℤ) = z
    omega
  · obtain ⟨c, l, hcl⟩ := List.exists_cons_of_ne_nil (digits_ne_nil z.natAbs)
    have hc : isDigit c = true := isDigit_of_mem_digits (hcl ▸ List.mem_cons_self)
    have hminus : c ≠ minus := by
      rintro rfl
      cases hc
    have hplus : c ≠ plus := by
      rintro rfl
      cases hc
    rw [hcl, List.cons_append] at hread ⊢
    rw [readDecimal, if_neg hminus, if_neg hplus, hread]
    refine Prod.ext ?_ rfl
    change (z.natAbs : ℤ) = z
    omega

theorem length_decimal_le {z : ℤ} {k : ℕ} (hk : 0 < k) (h : z.natAbs < 10 ^ k) :
    (decimal z).length ≤ k + 1 := by
  have hdigits := length_digits_le hk h
  unfold decimal
  split_ifs
  · exact Nat.succ_le_succ hdigits
  · exact Nat.le_succ_of_le hdigits

/-! ## Numbers of 64 bits -/

/-- The numbers that a `long` has. -/
def IsLong (z : ℤ) : Prop := -2 ^ 63 ≤ z ∧ z < 2 ^ 63

/-- The nearest `long`. -/
def clampLong (z : ℤ) : ℤ := max (-2 ^ 63) (min (2 ^ 63 - 1) z)

theorem clampLong_eq {z : ℤ} (h : IsLong z) : clampLong z = z := by
  obtain ⟨hlo, hhi⟩ := h
  unfold clampLong
  omega

theorem isLong_natCast {n : ℕ} (h : n < 2 ^ 63) : IsLong n := by
  constructor <;> omega

theorem length_decimal_long {z : ℤ} (h : IsLong z) : (decimal z).length ≤ 20 := by
  obtain ⟨hlo, hhi⟩ := h
  exact length_decimal_le (k := 19) (by decide) (by omega)

/-- White space in front of a text is skipped, and a `long` is read. -/
def readLong (isSpace : UInt8 → Bool) (l : List UInt8) : ℤ :=
  clampLong (readDecimal (l.dropWhile isSpace)).1

/-- A number starts with a digit or the minus sign. -/
theorem exists_decimal_eq_cons (z : ℤ) :
    ∃ c l, decimal z = c :: l ∧ (isDigit c = true ∨ c = minus) := by
  unfold decimal
  split_ifs
  · exact ⟨minus, _, rfl, Or.inr rfl⟩
  · obtain ⟨c, l, hcl⟩ := List.exists_cons_of_ne_nil (digits_ne_nil z.natAbs)
    exact ⟨c, l, hcl, Or.inl (isDigit_of_mem_digits (hcl ▸ List.mem_cons_self))⟩

/-- A number is read as it is written, if it is a `long`, and else as the nearest. -/
theorem readLong_decimal {isSpace : UInt8 → Bool}
    (hspace : ∀ c, isDigit c = true ∨ c = minus → isSpace c = false) (z : ℤ) :
    readLong isSpace (decimal z) = clampLong z := by
  obtain ⟨c, l, hcl, hc⟩ := exists_decimal_eq_cons z
  have hdrop : (decimal z).dropWhile isSpace = decimal z := by
    rw [hcl, List.dropWhile_cons_of_neg (by simp [hspace c hc])]
  have hend : EndsNumber [] := fun _ hc => nomatch hc
  have hread := readDecimal_append z hend
  rw [List.append_nil] at hread
  rw [readLong, hdrop, hread]

/-! ## Formats -/

/-- A piece of a text. -/
inductive Piece
  | chars (s : List UInt8)
  | number (z : ℤ)
  deriving DecidableEq

/-- What a piece is without its number. -/
inductive Shape
  | chars (s : List UInt8)
  | number
  deriving DecidableEq

namespace Piece

def shape : Piece → Shape
  | chars s => .chars s
  | number _ => .number

def number? : Piece → Option ℤ
  | chars _ => none
  | number z => some z

/-- The text of a piece. -/
def print : Piece → List UInt8
  | chars s => s
  | number z => decimal z

end Piece

/-- The text of pieces. -/
def print (ps : List Piece) : List UInt8 := ps.flatMap Piece.print

/-- `snprintf` into a buffer of `size` bytes: the string there. -/
def snprintf (size : ℕ) (ps : List Piece) : List UInt8 := (print ps).take (size - 1)

/-- Read the numbers of a text of the shapes given. -/
def scan : List Shape → List UInt8 → Option (List ℤ)
  | [], l => if l = [] then some [] else none
  | .chars s :: shapes, l => if s.isPrefixOf l then scan shapes (l.drop s.length) else none
  | .number :: shapes, l => (scan shapes (readDecimal l).2).map ((readDecimal l).1 :: ·)

/-- The shapes do not go on with a digit. -/
def Shape.endNumber : List Shape → Bool
  | [] => true
  | .chars (c :: _) :: _ => !isDigit c
  | _ => false

/-- No number is followed by a digit. -/
def Shape.separated : List Shape → Bool
  | [] => true
  | .chars _ :: shapes => separated shapes
  | .number :: shapes => endNumber shapes && separated shapes

theorem endsNumber_print {ps : List Piece} (h : Shape.endNumber (ps.map Piece.shape) = true) :
    EndsNumber (print ps) := by
  match ps, h with
  | [], _ => exact fun _ hc => nomatch hc
  | .chars (c :: s) :: ps, h =>
    intro d hd
    obtain rfl : c = d := Option.some.inj hd
    simpa [Shape.endNumber, Piece.shape] using h

/-- **The numbers of a text** can be read off it. -/
theorem scan_print {ps : List Piece} (h : Shape.separated (ps.map Piece.shape) = true) :
    scan (ps.map Piece.shape) (print ps) = some (ps.filterMap Piece.number?) := by
  induction ps with
  | nil => rfl
  | cons p ps ih =>
    cases p with
    | chars s =>
      have hprefix : s.isPrefixOf (s ++ print ps) = true :=
        List.isPrefixOf_iff_prefix.mpr (List.prefix_append s _)
      change (if s.isPrefixOf (s ++ print ps) then
        scan (ps.map Piece.shape) ((s ++ print ps).drop s.length) else none) = _
      rw [if_pos hprefix, List.drop_left, ih h]
      rfl
    | number z =>
      obtain ⟨hend, hrest⟩ := Bool.and_eq_true_iff.mp h
      change (scan (ps.map Piece.shape) (readDecimal (decimal z ++ print ps)).2).map
        ((readDecimal (decimal z ++ print ps)).1 :: ·) = _
      rw [readDecimal_append z (endsNumber_print hend), ih hrest]
      rfl

/-- The length of a text whose numbers have `k` characters each. -/
def Shape.size (k : ℕ) : List Shape → ℕ
  | [] => 0
  | .chars s :: shapes => s.length + size k shapes
  | .number :: shapes => k + size k shapes

theorem length_print_le {k : ℕ} {ps : List Piece}
    (h : ∀ z ∈ ps.filterMap Piece.number?, (decimal z).length ≤ k) :
    (print ps).length ≤ Shape.size k (ps.map Piece.shape) := by
  induction ps with
  | nil => exact Nat.le_refl 0
  | cons p ps ih =>
    cases p with
    | chars s =>
      change (s ++ print ps).length ≤ s.length + Shape.size k (ps.map Piece.shape)
      rw [List.length_append]
      exact Nat.add_le_add_left (ih h) _
    | number z =>
      obtain ⟨hz, hps⟩ := List.forall_mem_cons.mp h
      change (decimal z ++ print ps).length ≤ k + Shape.size k (ps.map Piece.shape)
      rw [List.length_append]
      exact Nat.add_le_add hz (ih hps)

/-- **A text that fits** is not cut. -/
theorem snprintf_eq {k size : ℕ} {ps : List Piece}
    (h : ∀ z ∈ ps.filterMap Piece.number?, (decimal z).length ≤ k)
    (hsize : Shape.size k (ps.map Piece.shape) < size) : snprintf size ps = print ps := by
  have hlen := length_print_le h
  exact List.take_of_length_le (by omega)

end Lars.Decimal
