import Mathlib.Algebra.Group.Int.Defs
import Mathlib.Algebra.GroupWithZero.Nat
import Mathlib.Data.Int.Basic
import Mathlib.Data.List.TakeWhile
import Mathlib.Order.Basic

namespace Cpp

abbrev Bytes := List UInt8

/-- ASCII text as the bytes a C++ string literal holds. -/
def text (characters : List Char) : Bytes := characters.map Char.toUInt8

/-- The exceptions of the standard conversions and of the string constructor. -/
inductive StdError
  | invalidArgument
  | outOfRange
  | lengthError
  deriving DecidableEq, Repr

def isdigit (c : UInt8) : Bool := 48 ≤ c && c ≤ 57

def isspace (c : UInt8) : Bool := c == 32 || (9 ≤ c && c ≤ 13)

def isalnum (c : UInt8) : Bool := isdigit c || (65 ≤ c && c ≤ 90) || (97 ≤ c && c ≤ 122)

/-- `std::to_string` of an unsigned number. -/
def toStringUnsigned (n : Nat) : Bytes := text (Nat.toDigits 10 n)

/-- `std::to_string` of a signed number: a minus sign and the magnitude. -/
def toStringSigned (v : Int) : Bytes :=
  if v < 0 then 45 :: toStringUnsigned v.natAbs else toStringUnsigned v.natAbs

/-- The number a run of decimal digits denotes. -/
def digitsValue (digits : Bytes) : Nat :=
  digits.foldl (fun sofar c => 10 * sofar + (c.toNat - 48)) 0

/-- `std::stoul` in base ten on text without sign. Only the longest leading
run of digits is read; no digit at all is `invalid_argument`. -/
def stoul (numStr : Bytes) : Except StdError Nat :=
  let digits := (numStr.dropWhile isspace).takeWhile isdigit
  if digits.isEmpty then .error .invalidArgument
  else if 2 ^ 64 ≤ digitsValue digits then .error .outOfRange
  else .ok (digitsValue digits)

/-- The optional sign that `strtoll` reads before the digits. -/
def splitSign : Bytes → Bool × Bytes
  | 45 :: rest => (true, rest)
  | 43 :: rest => (false, rest)
  | rest => (false, rest)

/-- `std::stoll` in base ten. Whatever follows the digits is ignored. -/
def stoll (numStr : Bytes) : Except StdError Int64 :=
  let (negative, rest) := splitSign (numStr.dropWhile isspace)
  let digits := rest.takeWhile isdigit
  let value : Int := if negative then -(digitsValue digits : Int) else digitsValue digits
  if digits.isEmpty then .error .invalidArgument
  else if value < -2 ^ 63 ∨ 2 ^ 63 ≤ value then .error .outOfRange
  else .ok (Int64.ofInt value)

theorem digitChar_toUInt8 {c : Char} (digit : c.isDigit = true) :
    isdigit c.toUInt8 = true ∧ c.toUInt8.toNat = c.toNat := by
  simp only [Char.isDigit, Bool.and_eq_true, decide_eq_true_eq, ge_iff_le, UInt32.le_iff_toNat_le] at digit
  have lower : 48 ≤ c.val.toNat := digit.1
  have upper : c.val.toNat ≤ 57 := digit.2
  have same : c.toUInt8.toNat = c.val.toNat := by
    simp only [Char.toUInt8, UInt32.toNat_toUInt8]
    omega
  refine ⟨?_, same⟩
  simp only [isdigit, Bool.and_eq_true, decide_eq_true_eq, UInt8.le_iff_toNat_le, same]
  exact ⟨lower, upper⟩

theorem toStringUnsigned_isdigit (n : Nat) : ∀ c ∈ toStringUnsigned n, isdigit c = true := by
  intro c member
  obtain ⟨digit, inDigits, rfl⟩ := List.mem_map.mp member
  exact (digitChar_toUInt8 (Nat.isDigit_of_mem_toDigits (by decide) (by decide) inDigits)).1

theorem toStringUnsigned_ne_nil (n : Nat) : toStringUnsigned n ≠ [] := by
  simp only [toStringUnsigned, text, ne_eq, List.map_eq_nil_iff]
  exact Nat.toDigits_ne_nil

theorem digitsValue_text {digits : List Char} (all : ∀ c ∈ digits, c.isDigit = true) (init : Nat) :
    (text digits).foldl (fun sofar c => 10 * sofar + (c.toNat - 48)) init =
      Nat.ofDigitChars 10 digits init := by
  induction digits generalizing init with
  | nil => rfl
  | cons c rest ih =>
    have value := (digitChar_toUInt8 (all c (List.mem_cons_self ..))).2
    simp only [text, List.map_cons, List.foldl_cons, Nat.ofDigitChars_cons, value]
    exact ih (fun d member => all d (List.mem_cons_of_mem _ member)) _

theorem digitsValue_toStringUnsigned (n : Nat) : digitsValue (toStringUnsigned n) = n := by
  have digits : ∀ c ∈ Nat.toDigits 10 n, c.isDigit = true :=
    fun c member => Nat.isDigit_of_mem_toDigits (by decide) (by decide) member
  exact (digitsValue_text digits 0).trans Nat.ofDigitChars_ten_toDigits

/-- No digit is white space, so a conversion starts reading at the first one. -/
theorem isspace_of_isdigit {c : UInt8} (digit : isdigit c = true) : isspace c = false := by
  simp only [isdigit, Bool.and_eq_true, decide_eq_true_eq, UInt8.le_iff_toNat_le] at digit
  have lower : 48 ≤ c.toNat := digit.1
  simp only [isspace, Bool.or_eq_false_iff, beq_eq_false_iff_ne, Bool.and_eq_false_iff,
    decide_eq_false_iff_not, UInt8.le_iff_toNat_le]
  refine ⟨?_, Or.inr ?_⟩
  · rintro rfl
    exact absurd lower (by decide)
  · show ¬c.toNat ≤ 13
    omega

theorem dropWhile_isspace_of_digits {digits : Bytes} (all : ∀ c ∈ digits, isdigit c = true) :
    digits.dropWhile isspace = digits := by
  cases digits with
  | nil => rfl
  | cons c rest => simp [isspace_of_isdigit (all c (List.mem_cons_self ..))]

theorem takeWhile_isdigit_of_digits {digits : Bytes} (all : ∀ c ∈ digits, isdigit c = true) :
    digits.takeWhile isdigit = digits :=
  List.takeWhile_eq_self_iff.mpr all

theorem splitSign_of_isdigit {c : UInt8} {rest : Bytes} (digit : isdigit c = true) :
    splitSign (c :: rest) = (false, c :: rest) := by
  unfold splitSign
  split
  · rename_i same
    cases same
    exact absurd digit (by decide)
  · rename_i same
    cases same
    exact absurd digit (by decide)
  · rfl

theorem stoul_of_digits {digits : Bytes} (all : ∀ c ∈ digits, isdigit c = true) (nonempty : digits ≠ [])
    (fits : digitsValue digits < 2 ^ 64) : stoul digits = .ok (digitsValue digits) := by
  simp only [stoul, dropWhile_isspace_of_digits all, takeWhile_isdigit_of_digits all, List.isEmpty_iff, nonempty,
    if_false, Nat.not_le.mpr fits]

/-- A run of digits is converted only as a whole. -/
theorem digits_of_stoul {digits : Bytes} {n : Nat} (all : ∀ c ∈ digits, isdigit c = true)
    (converted : stoul digits = .ok n) : digits ≠ [] ∧ n = digitsValue digits := by
  simp only [stoul, dropWhile_isspace_of_digits all, takeWhile_isdigit_of_digits all] at converted
  split at converted
  · cases converted
  · rename_i nonempty
    split at converted
    · cases converted
    · cases converted
      exact ⟨by simpa using nonempty, rfl⟩

theorem stoll_of_digits {digits : Bytes} (all : ∀ c ∈ digits, isdigit c = true) (nonempty : digits ≠ []) :
    stoll digits = (if (2 : Int) ^ 63 ≤ digitsValue digits then .error .outOfRange
      else .ok (Int64.ofInt (digitsValue digits))) ∧
    stoll (45 :: digits) = (if -(digitsValue digits : Int) < -2 ^ 63 then .error .outOfRange
      else .ok (Int64.ofInt (-(digitsValue digits : Int)))) := by
  have unsigned : splitSign digits = (false, digits) := by
    cases digits with
    | nil => rfl
    | cons c rest => exact splitSign_of_isdigit (all c (List.mem_cons_self ..))
  have minus : (45 :: digits).dropWhile isspace = 45 :: digits := by
    simp [show isspace 45 = false by decide]
  have lower : ¬(digitsValue digits : Int) < -9223372036854775808 := by omega
  have upper : ¬(9223372036854775808 : Int) ≤ -(digitsValue digits : Int) := by omega
  constructor
  · simp [stoll, dropWhile_isspace_of_digits all, unsigned, takeWhile_isdigit_of_digits all, nonempty, lower]
  · simp [stoll, minus, splitSign, takeWhile_isdigit_of_digits all, nonempty, upper]

/-- Reading back a printed 64-bit integer gives the integer, the least one included. -/
theorem stoll_toStringSigned (v : Int64) : stoll (toStringSigned v.toInt) = .ok v := by
  have lower := v.le_toInt
  have upper := v.toInt_lt
  have all := toStringUnsigned_isdigit v.toInt.natAbs
  obtain ⟨plain, negated⟩ := stoll_of_digits all (toStringUnsigned_ne_nil _)
  rw [digitsValue_toStringUnsigned] at plain negated
  unfold toStringSigned
  split
  · rename_i negative
    rw [negated, if_neg (by omega), show -(v.toInt.natAbs : Int) = v.toInt by omega, Int64.ofInt_toInt]
  · rename_i nonnegative
    rw [plain, if_neg (by omega), show (v.toInt.natAbs : Int) = v.toInt by omega, Int64.ofInt_toInt]

end Cpp
