import BittorrentClient.Library.Decimal

namespace Cpp

/-- What `std::getline` delivers until it fails. A last line may lack its
newline, but nothing behind the last newline is no line. -/
def lines : Bytes → List Bytes
  | [] => []
  | c :: rest =>
    if c = 10 then [] :: lines rest
    else
      match lines rest with
      | [] => [[c]]
      | line :: later => (c :: line) :: later

/-- `>>` into a string, with what is left of the stream; `none` sets its
failbit. -/
def extractWord (stream : Bytes) : Option (Bytes × Bytes) :=
  let field := stream.dropWhile isspace
  let word := field.takeWhile (fun c => !isspace c)
  if word.isEmpty then none else some (word, field.dropWhile (fun c => !isspace c))

/-- `>>` into a `uint16_t`. A minus sign negates what follows it. -/
def extractU16 (stream : Bytes) : Option UInt16 :=
  let (negative, rest) := splitSign (stream.dropWhile isspace)
  let digits := rest.takeWhile isdigit
  if digits.isEmpty ∨ 2 ^ 16 ≤ digitsValue digits then none
  else some (if negative then -UInt16.ofNat (digitsValue digits) else UInt16.ofNat (digitsValue digits))

/-- The value of a hexadecimal digit. -/
def hexValue (c : UInt8) : Option Nat :=
  if isdigit c then some (c.toNat - 48)
  else if 97 ≤ c && c ≤ 102 then some (c.toNat - 87)
  else if 65 ≤ c && c ≤ 70 then some (c.toNat - 55)
  else none

/-- The `0x` that `strtoul` passes over if a digit follows it. -/
def skipHexMark : Bytes → Bytes
  | 48 :: x :: c :: rest =>
    if (x = 120 ∨ x = 88) ∧ (hexValue c).isSome then c :: rest else 48 :: x :: c :: rest
  | rest => rest

/-- `std::stoul` in base sixteen. -/
def stoulHex (numStr : Bytes) : Except StdError Nat :=
  let (negative, rest) := splitSign (numStr.dropWhile isspace)
  let digits := (skipHexMark rest).takeWhile (fun c => (hexValue c).isSome)
  let value := digits.foldl (fun sofar c => 16 * sofar + (hexValue c).getD 0) 0
  if digits.isEmpty then .error .invalidArgument
  else if 2 ^ 64 ≤ value then .error .outOfRange
  else .ok (if negative then (2 ^ 64 - value) % 2 ^ 64 else value)

/-- Two lowercase hexadecimal digits, as `std::setw(2)` and `std::setfill('0')`
leave them. -/
def hexByte (byte : UInt8) : Bytes := text [Nat.digitChar (byte.toNat / 16), Nat.digitChar (byte.toNat % 16)]

theorem lines_newline {line : Bytes} (whole : 10 ∉ line) (rest : Bytes) :
    lines (line ++ 10 :: rest) = line :: lines rest := by
  induction line with
  | nil => rfl
  | cons c line ih =>
    have other : c ≠ 10 := fun same => whole (same ▸ List.mem_cons_self)
    have later := ih fun member => whole (List.mem_cons_of_mem c member)
    rw [List.cons_append, lines, if_neg other, later]

/-- A field up to the next blank. -/
theorem extractWord_word {word : Bytes} (nonempty : word ≠ []) (solid : ∀ c ∈ word, isspace c = false) (rest : Bytes) :
    extractWord (word ++ 32 :: rest) = some (word, 32 :: rest) := by
  have start : (word ++ 32 :: rest).dropWhile isspace = word ++ 32 :: rest := by
    cases word with
    | nil => exact absurd rfl nonempty
    | cons c tail =>
      rw [List.cons_append, List.dropWhile_cons_of_neg]
      simpa using solid c List.mem_cons_self
  have all : ∀ c ∈ word, (!isspace c) = true := fun c member => by rw [solid c member, Bool.not_false]
  have stop : (!isspace 32) = false := by decide
  simp only [extractWord, start]
  rw [List.takeWhile_append_of_pos all, List.dropWhile_append_of_pos all, List.takeWhile_cons_of_neg (by simp [stop]),
    List.dropWhile_cons_of_neg (by simp [stop]), List.append_nil, if_neg (by simpa using nonempty)]

theorem extractWord_blank (stream : Bytes) : extractWord (32 :: stream) = extractWord stream := by
  have blank : isspace 32 = true := by decide
  simp only [extractWord, List.dropWhile_cons_of_pos blank]

theorem extractU16_digits (n : UInt16) : extractU16 (32 :: toStringUnsigned n.toNat) = some n := by
  have blank : isspace 32 = true := by decide
  have all := toStringUnsigned_isdigit n.toNat
  have value := digitsValue_toStringUnsigned n.toNat
  have nonempty := toStringUnsigned_ne_nil n.toNat
  have unsigned : splitSign (toStringUnsigned n.toNat) = (false, toStringUnsigned n.toNat) := by
    cases digits : toStringUnsigned n.toNat with
    | nil => exact absurd digits nonempty
    | cons c rest => exact splitSign_of_isdigit (all c (digits ▸ List.mem_cons_self))
  have small : ¬2 ^ 16 ≤ n.toNat := Nat.not_le.mpr n.toNat_lt
  simp only [extractU16, List.dropWhile_cons_of_pos blank, dropWhile_isspace_of_digits all, unsigned,
    takeWhile_isdigit_of_digits all, value, List.isEmpty_iff, nonempty, small, or_self, if_false, Bool.false_eq_true,
    UInt16.ofNat_toNat]

/-- Both digits of every byte are read back. -/
theorem stoulHex_hexByte (byte : UInt8) : stoulHex (hexByte byte) = .ok byte.toNat := by
  have checked : ∀ n, n < 256 → stoulHex (hexByte (UInt8.ofNat n)) = .ok n := by decide +kernel
  have read := checked byte.toNat byte.toNat_lt
  rwa [UInt8.ofNat_toNat] at read

/-- No digit of a byte is white space. -/
theorem hexByte_solid (byte : UInt8) : ∀ c ∈ hexByte byte, isspace c = false := by
  have checked : ∀ n, n < 256 → (hexByte (UInt8.ofNat n)).all (fun c => !isspace c) = true := by decide +kernel
  have solid := checked byte.toNat byte.toNat_lt
  rw [UInt8.ofNat_toNat, List.all_eq_true] at solid
  intro c member
  simpa using solid c member

/-- Without a field there is no number. -/
theorem extractU16_of_none {stream : Bytes} (none : extractWord stream = none) : extractU16 stream = .none := by
  simp only [extractWord] at none
  split at none
  case isFalse => cases none
  case isTrue empty =>
    have blank : stream.dropWhile isspace = [] := by
      cases field : stream.dropWhile isspace with
      | nil => rfl
      | cons c rest =>
        have start := List.head?_dropWhile_not isspace stream
        rw [field] at start empty
        have solid : isspace c = false := start
        rw [List.takeWhile_cons_of_pos (by rw [solid, Bool.not_false])] at empty
        cases empty
    simp only [extractU16, blank, splitSign]
    rfl

/-- A field of digits is read as the number it denotes, if that is small enough. -/
theorem extractU16_word {stream word tail : Bytes} (found : extractWord stream = some (word, tail))
    (digits : ∀ c ∈ word, isdigit c = true) :
    extractU16 stream = if digitsValue word < 2 ^ 16 then some (UInt16.ofNat (digitsValue word)) else none := by
  simp only [extractWord] at found
  split at found
  case isTrue => cases found
  case isFalse some_ =>
    cases found
    have whole := List.takeWhile_append_dropWhile (p := fun c => !isspace c) (l := stream.dropWhile isspace)
    have behind : ((stream.dropWhile isspace).dropWhile fun c => !isspace c).takeWhile isdigit = [] := by
      cases rest : (stream.dropWhile isspace).dropWhile fun c => !isspace c with
      | nil => rfl
      | cons c later =>
        have stop := List.head?_dropWhile_not (fun c => !isspace c) (stream.dropWhile isspace)
        rw [rest] at stop
        have blank : isspace c = true := by simpa using stop
        refine List.takeWhile_cons_of_neg fun digit => ?_
        exact Bool.false_ne_true ((isspace_of_isdigit digit).symm.trans blank)
    generalize (stream.dropWhile isspace).takeWhile (fun c => !isspace c) = word at *
    generalize (stream.dropWhile isspace).dropWhile (fun c => !isspace c) = tail at *
    have unsigned : splitSign (word ++ tail) = (false, word ++ tail) := by
      cases word with
      | nil => exact absurd rfl some_
      | cons c rest => exact splitSign_of_isdigit (digits c List.mem_cons_self)
    have read : (word ++ tail).takeWhile isdigit = word := by
      rw [List.takeWhile_append_of_pos digits, behind, List.append_nil]
    simp only [extractU16, ← whole, unsigned, read, some_, Bool.false_eq_true, false_or, if_false]
    by_cases small : digitsValue word < 2 ^ 16
    · rw [if_neg (Nat.not_le.mpr small), if_pos small]
    · rw [if_pos (Nat.not_lt.mp small), if_neg small]

section Pairs
variable {a : UInt8} {hex : Bytes}

/-- Two characters in which `stoul` finds a hexadecimal digit: in front, or behind
one that it passes over. -/
def converts (a b : UInt8) : Bool := (hexValue a).isSome || ((isspace a || a == 43 || a == 45) && (hexValue b).isSome)

theorem hexValue_lt (c : UInt8) : (hexValue c).getD 0 < 16 := by
  have checked : ∀ n, n < 256 → (hexValue (UInt8.ofNat n)).getD 0 < 16 := by decide +kernel
  have read := checked c.toNat c.toNat_lt
  rwa [UInt8.ofNat_toNat] at read

/-- What `stoul` passes over is no digit. -/
theorem hexValue_of_passed (passed : isspace a = true ∨ a = 43 ∨ a = 45) : hexValue a = none := by
  have checked : ∀ n, n < 256 → isspace (UInt8.ofNat n) = true → hexValue (UInt8.ofNat n) = none := by decide +kernel
  rcases passed with blank | rfl | rfl
  · have read := checked a.toNat a.toNat_lt
    rw [UInt8.ofNat_toNat] at read
    exact read blank
  · decide
  · decide

theorem splitSign_cons (c : UInt8) (rest : Bytes) :
    splitSign (c :: rest) = if c = 45 then (true, rest) else if c = 43 then (false, rest) else (false, c :: rest) := by
  by_cases minus : c = 45
  · subst minus
    rfl
  · by_cases plus : c = 43
    · subst plus
      rfl
    · rw [if_neg minus, if_neg plus, splitSign]
      · exact fun _ same => minus (List.cons.inj same).1
      · exact fun _ same => plus (List.cons.inj same).1

/-- At most two digits never make too large a number. -/
theorem stoulHex_short {numStr rest : Bytes} {negative : Bool} (sign : splitSign (numStr.dropWhile isspace) = (negative, rest))
    (short : rest.length ≤ 2) :
    if (rest.head?.bind hexValue).isSome then ∃ value, stoulHex numStr = .ok value
    else stoulHex numStr = .error .invalidArgument := by
  have unmarked : skipHexMark rest = rest := by
    rw [skipHexMark]
    intro _ _ _ long
    rw [long, List.length_cons, List.length_cons, List.length_cons] at short
    omega
  have found : stoulHex numStr = if (rest.takeWhile fun c => (hexValue c).isSome).isEmpty then .error .invalidArgument
      else .ok (if negative then (2 ^ 64 - (rest.takeWhile fun c => (hexValue c).isSome).foldl
          (fun sofar c => 16 * sofar + (hexValue c).getD 0) 0) % 2 ^ 64
        else (rest.takeWhile fun c => (hexValue c).isSome).foldl (fun sofar c => 16 * sofar + (hexValue c).getD 0) 0) := by
    have small : (rest.takeWhile fun c => (hexValue c).isSome).foldl
        (fun sofar c => 16 * sofar + (hexValue c).getD 0) 0 < 2 ^ 64 := by
      have few := Nat.le_trans (List.takeWhile_prefix fun c => (hexValue c).isSome).length_le short
      generalize rest.takeWhile (fun c => (hexValue c).isSome) = digits at few
      rcases digits with _ | ⟨x, _ | ⟨y, _ | ⟨z, more⟩⟩⟩
      · decide
      · have first := hexValue_lt x
        simp only [List.foldl_cons, List.foldl_nil]
        omega
      · have first := hexValue_lt x
        have second := hexValue_lt y
        simp only [List.foldl_cons, List.foldl_nil]
        omega
      · rw [List.length_cons, List.length_cons, List.length_cons] at few
        omega
    simp only [stoulHex, sign, unmarked, if_neg (Nat.not_le.mpr small)]
  rw [found]
  cases rest with
  | nil => rfl
  | cons c tail =>
    rw [List.head?_cons, Option.bind_some]
    cases digit : hexValue c with
    | none =>
      rw [List.takeWhile_cons_of_neg (by rw [digit]; exact Bool.false_ne_true)]
      rfl
    | some value =>
      rw [List.takeWhile_cons_of_pos (by rw [digit]; rfl)]
      exact ⟨_, rfl⟩

/-- Two characters are converted, or `stoul` throws. -/
theorem stoulHex_pair (a b : UInt8) :
    if converts a b then ∃ value, stoulHex [a, b] = .ok value else stoulHex [a, b] = .error .invalidArgument := by
  suffices ∃ negative rest, splitSign ([a, b].dropWhile isspace) = (negative, rest) ∧ rest.length ≤ 2 ∧
      (rest.head?.bind hexValue).isSome = converts a b by
    obtain ⟨negative, rest, sign, short, same⟩ := this
    rw [← same]
    exact stoulHex_short sign short
  cases blankA : isspace a with
  | true =>
    have reads : converts a b = (hexValue b).isSome := by
      rw [converts, hexValue_of_passed (Or.inl blankA), blankA]
      rfl
    rw [List.dropWhile_cons_of_pos blankA, reads]
    cases blankB : isspace b with
    | true =>
      rw [List.dropWhile_cons_of_pos blankB, hexValue_of_passed (Or.inl blankB)]
      exact ⟨false, [], rfl, by decide, rfl⟩
    | false =>
      rw [List.dropWhile_cons_of_neg (by rw [blankB]; exact Bool.false_ne_true), splitSign_cons]
      split
      case isTrue minus =>
        rw [hexValue_of_passed (Or.inr (Or.inr minus))]
        exact ⟨true, [], rfl, by decide, rfl⟩
      case isFalse =>
        split
        case isTrue plus =>
          rw [hexValue_of_passed (Or.inr (Or.inl plus))]
          exact ⟨false, [], rfl, by decide, rfl⟩
        case isFalse => exact ⟨false, [b], rfl, Nat.le_succ 1, rfl⟩
  | false =>
    rw [List.dropWhile_cons_of_neg (by rw [blankA]; exact Bool.false_ne_true), splitSign_cons]
    split
    case isTrue minus =>
      subst minus
      exact ⟨true, [b], rfl, Nat.le_succ 1, rfl⟩
    case isFalse minus =>
      split
      case isTrue plus =>
        subst plus
        exact ⟨false, [b], rfl, Nat.le_succ 1, rfl⟩
      case isFalse plus =>
        refine ⟨false, [a, b], rfl, Nat.le_refl 2, ?_⟩
        rw [converts, blankA, beq_false_of_ne minus, beq_false_of_ne plus]
        simp

/-- Every pair of characters converts. -/
def convertible : Bytes → Bool
  | a :: b :: rest => converts a b && convertible rest
  | _ => true

end Pairs

end Cpp
