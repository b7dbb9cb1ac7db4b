import Mathlib.Data.List.TakeWhile
import Mathlib.Algebra.Order.Group.Int
import Mathlib.Tactic.Ring

/-! # C strings and decimal numbers

Byte buffers as C sees them: a string ends at its first NUL, `strlen`, `strchr` and `strcmp` look no
further, `atol` skips blanks and reads digits, and the `%*lld` conversions of `sprintf` pad on the
left.  The lemmas behind them say that `atol` reads back what the conversions print; a text that is
itself given to `printf` as the format comes last.
-/

namespace Apue.Base

abbrev Bytes := List UInt8

/-! ## Strings -/

/-- The characters of a string literal. -/
def ascii (s : String) : Bytes := s.toList.map Char.toUInt8

/-- The C string that starts at the first byte of the buffer. -/
def cstr (s : Bytes) : Bytes := s.takeWhile (· ≠ 0)

def strlen (s : Bytes) : Nat := (cstr s).length

/-- The index of the first `c` in the C string, `none` for the null pointer. -/
def strchr (s : Bytes) (c : UInt8) : Option Nat := (cstr s).findIdx? (· = c)

/-- `strcmp(s, t) == 0`. -/
def strEq (s t : Bytes) : Bool := cstr s = cstr t

/-- A buffer without a NUL, that is, the contents of a C string. -/
def NulFree (s : Bytes) : Prop := 0 ∉ s

instance (s : Bytes) : Decidable (NulFree s) := inferInstanceAs (Decidable (0 ∉ s))

theorem cstr_append_zero {s : Bytes} (clean : NulFree s) (rest : Bytes) :
    cstr (s ++ 0 :: rest) = s := by
  unfold cstr
  rw [List.takeWhile_append_of_pos]
  · simp
  · intro b member
    simpa using fun zero : b = 0 => clean (zero ▸ member)

theorem cstr_of_nulFree {s : Bytes} (clean : NulFree s) : cstr s = s := by
  unfold cstr
  rw [List.takeWhile_eq_self_iff]
  intro b member
  simpa using fun zero : b = 0 => clean (zero ▸ member)

theorem nulFree_cstr (s : Bytes) : NulFree (cstr s) := by
  intro member
  have := List.mem_takeWhile_imp member
  simp at this

theorem strlen_of_nulFree {s : Bytes} (clean : NulFree s) : strlen s = s.length := by
  rw [strlen, cstr_of_nulFree clean]

theorem strchr_append {s : Bytes} {c : UInt8} (clean : NulFree s) (absent : c ∉ s) (nonzero : c ≠ 0)
    (rest : Bytes) : strchr (s ++ c :: rest) c = some s.length := by
  unfold strchr cstr
  rw [List.takeWhile_append_of_pos]
  · rw [List.takeWhile_cons_of_pos (by simpa using nonzero), List.findIdx?_append]
    have none : s.findIdx? (· = c) = none := by
      rw [List.findIdx?_eq_none_iff]
      intro b member
      simpa using fun same : b = c => absent (same ▸ member)
    simp [none, List.findIdx?_cons]
  · intro b member
    simpa using fun zero : b = 0 => clean (zero ▸ member)

theorem strchr_eq_none {s : Bytes} {c : UInt8} (absent : c ∉ cstr s) : strchr s c = none := by
  unfold strchr
  rw [List.findIdx?_eq_none_iff]
  intro b member
  simpa using fun same : b = c => absent (same ▸ member)

theorem strchr_ne_none {s : Bytes} {c : UInt8} (present : c ∈ cstr s) : strchr s c ≠ none := by
  unfold strchr
  rw [Ne, List.findIdx?_eq_none_iff]
  intro absent
  simpa using absent c present

/-! ## Integer types -/

/-- Conversion to a 32-bit `int`. -/
def cInt (z : Int) : Int := z.bmod (2 ^ 32)

/-- Conversion to `size_t`. -/
def sizeT (z : Int) : Nat := (z % 2 ^ 64).toNat

theorem cInt_of_small {n : Nat} (small : n < 2 ^ 31) : cInt n = n := by
  unfold cInt
  rw [Int.bmod_eq_of_le] <;> omega

theorem sizeT_natCast {n : Nat} (small : n < 2 ^ 64) : sizeT n = n := by
  unfold sizeT
  omega

/-! ## Numbers as text -/

def isSpace (b : UInt8) : Bool := b = 32 || (9 ≤ b && b ≤ 13)

def isDigit (b : UInt8) : Bool := 48 ≤ b && b ≤ 57

def digitsValue (digits : Bytes) : Nat :=
  digits.foldl (fun value d => 10 * value + (d.toNat - 48)) 0

/-- `atol`, with `strtol`'s saturation. -/
def atol (s : Bytes) : Int :=
  let text := s.dropWhile isSpace
  if text.head? = some 45 then -(min (digitsValue (text.tail.takeWhile isDigit)) (2 ^ 63) : Nat)
  else if text.head? =
    some 43 then (min (digitsValue (text.tail.takeWhile isDigit)) (2 ^ 63 - 1) : Nat)
  else (min (digitsValue (text.takeWhile isDigit)) (2 ^ 63 - 1) : Nat)

def atoi (s : Bytes) : Int := cInt (atol s)

/-- The conversion `%d` of a number that is not negative. -/
def decimal (n : Nat) : Bytes := (Nat.toDigits 10 n).map Char.toUInt8

/-- The conversion `%lld`. -/
def decimalInt (z : Int) : Bytes := if z < 0 then 45 :: decimal z.natAbs else decimal z.toNat

/-- The width of a `%*d` conversion: blanks on the left. -/
def padLeft (width : Nat) (s : Bytes) : Bytes := List.replicate (width - s.length) 32 ++ s

theorem decimalInt_natCast (n : Nat) : decimalInt n = decimal n := by simp [decimalInt]

theorem decimal_ne_nil (n : Nat) : decimal n ≠ [] := by simp [decimal]

theorem decimal_length_le {n width : Nat} (pos : 0 < width) :
    (decimal n).length ≤ width ↔ n < 10 ^ width := by
  rw [decimal, List.length_map]
  exact Nat.length_toDigits_le_iff (by decide) pos

theorem padLeft_length {width : Nat} {s : Bytes} (fits : s.length ≤ width) :
    (padLeft width s).length = width := by
  simp [padLeft]
  omega

theorem isSpace_of_isDigit {d : UInt8} (digit : isDigit d = true) : isSpace d = false := by
  simp only [isDigit, isSpace, Bool.and_eq_true, decide_eq_true_eq,
    UInt8.le_iff_toNat_le] at digit ⊢
  simp only [Bool.or_eq_false_iff, decide_eq_false_iff_not, Bool.and_eq_false_iff]
  constructor
  · rintro rfl
    simp at digit
  · right
    simp at digit ⊢
    omega

private theorem toNat_toUInt8_of_isDigit {c : Char} (digit : c.isDigit) :
    c.toUInt8.toNat = c.toNat := by
  simp only [Char.isDigit, Bool.and_eq_true, decide_eq_true_eq] at digit
  have upper : c.val.toNat ≤ 57 := UInt32.le_iff_toNat_le.mp digit.2
  simp only [Char.toUInt8, UInt32.toNat_toUInt8, Char.toNat]
  omega

theorem isDigit_of_mem_decimal {n : Nat} {b : UInt8} (member : b ∈ decimal n) :
    isDigit b = true := by
  obtain ⟨c, inDigits, rfl⟩ := List.mem_map.mp member
  have digit := Nat.isDigit_of_mem_toDigits (by decide) (by decide) inDigits
  have same := toNat_toUInt8_of_isDigit digit
  simp only [Char.isDigit, Bool.and_eq_true, decide_eq_true_eq] at digit
  have lower : 48 ≤ c.val.toNat := UInt32.le_iff_toNat_le.mp digit.1
  have upper : c.val.toNat ≤ 57 := UInt32.le_iff_toNat_le.mp digit.2
  simp only [isDigit, Bool.and_eq_true, decide_eq_true_eq, UInt8.le_iff_toNat_le, same, Char.toNat]
  exact ⟨lower, upper⟩

theorem digitsValue_decimal (n : Nat) : digitsValue (decimal n) = n := by
  have general : ∀ (digits : List Char), (∀ c ∈ digits, c.isDigit) → ∀ init,
      (digits.map Char.toUInt8).foldl (fun value d => 10 * value + (d.toNat - 48)) init =
        Nat.ofDigitChars 10 digits init := by
    intro digits
    induction digits with
    | nil => intro _ init; simp
    | cons c digits inductionHypothesis =>
      intro all init
      rw [Nat.ofDigitChars_cons, List.map_cons, List.foldl_cons,
        toNat_toUInt8_of_isDigit (all c List.mem_cons_self)]
      exact inductionHypothesis (fun d member => all d (List.mem_cons_of_mem c member)) _
  rw [digitsValue, decimal, general _ fun c member => Nat.isDigit_of_mem_toDigits (by decide)
    (by decide) member]
  exact Nat.ofDigitChars_ten_toDigits

theorem notMem_decimal {n : Nat} {b : UInt8} (other : isDigit b = false) : b ∉ decimal n := by
  intro member
  simp [isDigit_of_mem_decimal member] at other

theorem nulFree_decimal (n : Nat) : NulFree (decimal n) := notMem_decimal (by decide)

theorem decimalInt_ne_nil (z : Int) : decimalInt z ≠ [] := by
  unfold decimalInt
  split
  · simp
  · exact decimal_ne_nil _

theorem nulFree_decimalInt (z : Int) : NulFree (decimalInt z) := by
  unfold decimalInt
  split
  · have digits := nulFree_decimal z.natAbs
    simp_all [NulFree]
  · exact nulFree_decimal z.toNat

/-! ## Reading back -/

/-- `atol` reads the digits that stand at the front of a text and stops at the first other byte. -/
theorem atol_decimal_append {n : Nat} (small : n < 2 ^ 63) (rest : Bytes)
    (stops : ∀ b ∈ rest.head?, isDigit b = false) : atol (decimal n ++ rest) = n := by
  obtain ⟨d, ds, shape⟩ := List.exists_cons_of_ne_nil (decimal_ne_nil n)
  have digit : isDigit d = true := isDigit_of_mem_decimal (shape ▸ List.mem_cons_self)
  have notSpace : isSpace d = false := isSpace_of_isDigit digit
  have noSign : d ≠ 45 ∧ d ≠ 43 := by
    constructor <;> (rintro rfl; simp [isDigit] at digit)
  have skipped : (decimal n ++ rest).dropWhile isSpace = decimal n ++ rest := by
    rw [shape, List.cons_append, List.dropWhile_cons_of_neg (by simp [notSpace])]
  have taken : (decimal n ++ rest).takeWhile isDigit = decimal n := by
    rw [List.takeWhile_append_of_pos fun b member => isDigit_of_mem_decimal member]
    cases rest with
    | nil => simp
    | cons b rest => rw [List.takeWhile_cons_of_neg (by simp [stops b rfl]), List.append_nil]
  have first : (decimal n ++ rest).head? = some d := by rw [shape]; rfl
  have unsaturated : min n (2 ^ 63 - 1) = n := by omega
  simp only [atol, skipped, first, taken, digitsValue_decimal, Option.some.injEq, noSign.1,
    noSign.2, if_false,
    unsaturated]

theorem atol_padLeft (width : Nat) {n : Nat} (small : n < 2 ^ 63) (rest : Bytes)
    (stops : ∀ b ∈ rest.head?, isDigit b = false) :
    atol (padLeft width (decimal n) ++ rest) = n := by
  have skipped : (padLeft width (decimal n) ++ rest).dropWhile isSpace =
      (decimal n ++ rest).dropWhile isSpace := by
    rw [padLeft, List.append_assoc, List.dropWhile_append_of_pos]
    intro b member
    rw [List.eq_of_mem_replicate member]
    decide
  rw [← atol_decimal_append small rest stops]
  unfold atol
  rw [skipped]

theorem atoi_decimalInt {z : Int} (lower : -2 ^ 31 ≤ z) (upper : z < 2 ^ 31) :
    atoi (decimalInt z) = z := by
  have fits : cInt z = z := by
    unfold cInt
    rw [Int.bmod_eq_of_le] <;> omega
  have reads : atol (decimalInt z) = z := by
    by_cases negative : z < 0
    · have digits : (decimal z.natAbs).takeWhile isDigit = decimal z.natAbs := by
        rw [List.takeWhile_eq_self_iff]
        exact fun b member => isDigit_of_mem_decimal member
      have unsaturated : min z.natAbs (2 ^ 63) = z.natAbs := by omega
      rw [decimalInt, if_pos negative]
      -- the sign is no blank, so the digits start right behind it
      simp only [atol, show isSpace 45 = false from rfl, Bool.false_eq_true, not_false_eq_true,
        List.dropWhile_cons_of_neg,
        List.head?_cons, if_true, List.tail_cons, digits, digitsValue_decimal, unsaturated]
      omega
    · have text : decimalInt z = decimal z.toNat ++ [] := by simp [decimalInt, negative]
      rw [text, atol_decimal_append (by omega) [] (by simp)]
      omega
  rw [atoi, reads, fits]

/-! ## Formats -/

/-- What `printf` makes of a format with no arguments behind it: `%%` is a `%`, and any other
conversion is undefined. -/
def formatted : Bytes → Option Bytes
  | [] => some []
  | [b] => if b = 37 then none else some [b]
  | b :: c :: rest =>
    if b ≠ 37 then (formatted (c :: rest)).map (b :: ·)
    else if c = 37 then (formatted rest).map (37 :: ·)
    else none

end Apue.Base
