import BittorrentClient.Bencode.Grammar

namespace BittorrentClient.Bencode
open Cpp

/-- The integers as the format has them: digits, with at most one minus sign in
front, whose value is one of `int64_t`. -/
def Literal (body : Bytes) (value : Int64) : Prop :=
  ∃ digits, digits ≠ [] ∧ (∀ c ∈ digits, isdigit c = true) ∧
    ((body = digits ∧ value.toInt = digitsValue digits) ∨ (body = 45 :: digits ∧ value.toInt = -digitsValue digits))

/-- A whole integer with a minus sign behind it, and whatever else the scanner
lets pass. -/
def Overrun (body : Bytes) : Prop :=
  ∃ front value rest, Literal front value ∧ (∀ c ∈ rest, isdigit c = true ∨ c = 45) ∧ body = front ++ 45 :: rest

namespace Literal
variable {body : Bytes} {value : Int64}

theorem signs (literal : Literal body value) : ∀ c ∈ body, isdigit c = true ∨ c = 45 := by
  obtain ⟨digits, _, all, ⟨rfl, _⟩ | ⟨rfl, _⟩⟩ := literal
  · exact fun c member => Or.inl (all c member)
  · intro c member
    rcases List.mem_cons.mp member with minus | digit
    · exact Or.inr minus
    · exact Or.inl (all c digit)

/-- Only the first character can be a minus sign. -/
theorem not_overrun (literal : Literal body value) : ¬ Overrun body := by
  rintro ⟨front, _, rest, ⟨digits', some, digit', shape⟩, _, split⟩
  obtain ⟨digits, _, all, ⟨rfl, _⟩ | ⟨rfl, _⟩⟩ := literal
  · have minus : 45 ∈ body := split ▸ List.mem_append_right front List.mem_cons_self
    exact absurd (all 45 minus) (by decide)
  · have first : front ≠ [] := by
      rcases shape with ⟨rfl, _⟩ | ⟨rfl, _⟩
      · exact some
      · exact List.cons_ne_nil _ _
    obtain ⟨c, tail, rfl⟩ := List.exists_cons_of_ne_nil first
    obtain ⟨rfl, later⟩ := List.cons.inj split
    have minus : 45 ∈ digits := later ▸ List.mem_append_right tail List.mem_cons_self
    exact absurd (all 45 minus) (by decide)

end Literal

section Stoll
variable {body front rest : Bytes} {value : Int64}

theorem dropWhile_isspace_of_signs (signs : ∀ c ∈ body, isdigit c = true ∨ c = 45) : body.dropWhile isspace = body := by
  cases body with
  | nil => rfl
  | cons c tail =>
    refine List.dropWhile_cons_of_neg ?_
    rcases signs c List.mem_cons_self with digit | rfl
    · rw [isspace_of_isdigit digit]
      exact Bool.false_ne_true
    · decide

/-- The checks at the end of `stoll`. -/
theorem converted_iff {digits : Bytes} {number : Int} :
    (if digits.isEmpty then .error .invalidArgument
      else if number < -2 ^ 63 ∨ 2 ^ 63 ≤ number then .error .outOfRange
      else .ok (Int64.ofInt number) : Except StdError Int64) = .ok value ↔ digits ≠ [] ∧ value.toInt = number := by
  have lower := value.le_toInt
  have upper := value.toInt_lt
  by_cases empty : digits.isEmpty = true
  · rw [if_pos empty]
    exact ⟨fun impossible => (nomatch impossible), fun both => absurd (List.isEmpty_iff.mp empty) both.1⟩
  · rw [if_neg empty]
    by_cases outside : number < -2 ^ 63 ∨ 2 ^ 63 ≤ number
    · rw [if_pos outside]
      refine ⟨fun impossible => (nomatch impossible), fun both => ?_⟩
      omega
    · rw [if_neg outside]
      refine ⟨fun same => ⟨fun none => empty (List.isEmpty_iff.mpr none), ?_⟩, fun both => ?_⟩
      · rw [← Except.ok.inj same]
        exact Int64.toInt_ofInt_of_le (by omega) (by omega)
      · rw [← both.2, Int64.ofInt_toInt]

theorem stoll_minus (tail : Bytes) :
    stoll (45 :: tail) = .ok value ↔ tail.takeWhile isdigit ≠ [] ∧ value.toInt = -digitsValue (tail.takeWhile isdigit) := by
  have start : (45 :: tail).dropWhile isspace = 45 :: tail := List.dropWhile_cons_of_neg (by decide)
  simp only [stoll, start, splitSign, if_true]
  exact converted_iff

theorem stoll_plain (signs : ∀ c ∈ body, isdigit c = true ∨ c = 45) (unsigned : body.head? ≠ some 45) :
    stoll body = .ok value ↔ body.takeWhile isdigit ≠ [] ∧ value.toInt = digitsValue (body.takeWhile isdigit) := by
  have start : body.dropWhile isspace = body := dropWhile_isspace_of_signs signs
  have plain : splitSign body = (false, body) := by
    cases body with
    | nil => rfl
    | cons c tail =>
      rcases signs c List.mem_cons_self with digit | rfl
      · exact splitSign_of_isdigit digit
      · exact absurd rfl unsigned
  simp only [stoll, start, plain, Bool.false_eq_true, if_false]
  exact converted_iff

theorem takeWhile_isdigit_append {digits : Bytes} (all : ∀ c ∈ digits, isdigit c = true)
    (stop : ∀ c ∈ rest.head?, isdigit c = false) : (digits ++ rest).takeWhile isdigit = digits := by
  rw [List.takeWhile_append_of_pos all]
  cases rest with
  | nil => exact List.append_nil digits
  | cons c tail =>
    rw [List.takeWhile_cons_of_neg (by rw [stop c rfl]; exact Bool.false_ne_true), List.append_nil]

/-- On digits and minus signs `stoll` reads an integer as far as it goes. -/
theorem stoll_eq_ok_iff (signs : ∀ c ∈ body, isdigit c = true ∨ c = 45) :
    stoll body = .ok value ↔
      ∃ front rest, body = front ++ rest ∧ Literal front value ∧ ∀ c ∈ rest.head?, isdigit c = false := by
  have stops : ∀ text : Bytes, ∀ c ∈ (text.dropWhile isdigit).head?, isdigit c = false := by
    intro text c first
    have stop := List.head?_dropWhile_not isdigit text
    rw [Option.mem_def.mp first] at stop
    exact stop
  have digits : ∀ text : Bytes, ∀ c ∈ text.takeWhile isdigit, isdigit c = true := fun _ _ => List.mem_takeWhile_imp
  by_cases minus : body.head? = some 45
  · obtain ⟨tail, rfl⟩ := List.head?_eq_some_iff.mp minus
    rw [stoll_minus]
    constructor
    · rintro ⟨some, number⟩
      refine ⟨45 :: tail.takeWhile isdigit, tail.dropWhile isdigit, ?_, ⟨_, some, digits tail, Or.inr ⟨rfl, number⟩⟩, stops tail⟩
      rw [List.cons_append, List.takeWhile_append_dropWhile]
    · rintro ⟨front, rest, split, ⟨digits, some, all, ⟨rfl, _⟩ | ⟨rfl, number⟩⟩, stop⟩
      · obtain ⟨c, more, rfl⟩ := List.exists_cons_of_ne_nil some
        obtain ⟨rfl, _⟩ := List.cons.inj split
        exact absurd (all 45 List.mem_cons_self) (by decide)
      · have tail_eq : tail = digits ++ rest := (List.cons.inj split).2
        rw [tail_eq, takeWhile_isdigit_append all stop]
        exact ⟨some, number⟩
  · rw [stoll_plain signs minus]
    constructor
    · rintro ⟨some, number⟩
      exact ⟨body.takeWhile isdigit, body.dropWhile isdigit, (List.takeWhile_append_dropWhile).symm,
        ⟨_, some, digits body, Or.inl ⟨rfl, number⟩⟩, stops body⟩
    · rintro ⟨front, rest, rfl, ⟨digits, some, all, ⟨rfl, number⟩ | ⟨rfl, _⟩⟩, stop⟩
      · rw [takeWhile_isdigit_append all stop]
        exact ⟨some, number⟩
      · exact absurd rfl minus

end Stoll

namespace Parser
variable {body : Bytes}

/-- The closing tag is the first one. -/
theorem upToEnd {characters rest : Bytes} (noEnd : 101 ∉ body) (noEnd' : 101 ∉ characters)
    (same : body ++ [101] = characters ++ 101 :: rest) : body = characters := by
  have front : ∀ text more : Bytes, 101 ∉ text → (text ++ 101 :: more).takeWhile (· ≠ 101) = text := by
    intro text more absent
    have all : ∀ c ∈ text, decide (c ≠ 101) = true :=
      fun c member => decide_eq_true fun closing => absent (closing ▸ member)
    rw [List.takeWhile_append_of_pos all, List.takeWhile_cons_of_neg (by decide), List.append_nil]
  rw [← front body [] noEnd, same, front characters rest noEnd']

/-- `parse_integer` between its two tags. -/
theorem parseInteger_eq_ok_iff (noEnd : 101 ∉ body) (result : BType × Nat) :
    parseInteger (105 :: (body ++ [101])) 0 = .ok result ↔
      (∀ c ∈ body, isdigit c = true ∨ c = 45) ∧ ∃ value, stoll body = .ok value ∧ result = (.integer value, body.length + 2) := by
  constructor
  · intro run
    obtain ⟨⟨first, start⟩, got, afterTag⟩ := bind_eq_ok.mp run
    cases got
    change (if (105 : UInt8) ≠ 105 then _ else _) = _ at afterTag
    rw [if_neg (not_not_intro rfl)] at afterTag
    obtain ⟨stop, scan, afterScan⟩ := bind_eq_ok.mp afterTag
    obtain ⟨⟨last, next⟩, gotEnd, afterEnd⟩ := bind_eq_ok.mp afterScan
    obtain ⟨value, converted, built⟩ := bind_eq_ok.mp afterEnd
    cases built
    obtain ⟨characters, rest, located, rfl, all⟩ := scanInteger_sound scan
    have tagless : 101 ∉ characters := fun member =>
      (all 101 member).elim (fun digit => absurd digit (by decide)) (by decide)
    obtain rfl := upToEnd noEnd tagless located
    rw [List.drop_succ_cons, List.drop_zero, Nat.add_sub_cancel_left, List.take_left] at converted
    have atEnd : (105 :: (body ++ [101])).drop (1 + body.length) = 101 :: [] := by
      rw [Nat.add_comm, List.drop_succ_cons, List.drop_left]
    rw [get_of_drop atEnd] at gotEnd
    cases gotEnd
    refine ⟨all, value, liftStd_eq_ok converted, ?_⟩
    rw [Nat.add_comm 1]
  · rintro ⟨signs, value, converted, rfl⟩
    rw [parseInteger_of_spells signs converted (List.drop_zero), Nat.zero_add]

/-- The property that the scanner is after: integers and nothing else, each with
its value. -/
def AcceptsLiterals (body : Bytes) : Prop :=
  ∀ result, parseInteger (105 :: (body ++ [101])) 0 = .ok result ↔
    ∃ value, Literal body value ∧ result = (.integer value, body.length + 2)

/-- Integers are accepted exactly, but for a minus sign behind one. -/
theorem accepts_literals_iff (noEnd : 101 ∉ body) : AcceptsLiterals body ↔ ¬ Overrun body := by
  constructor
  · rintro accepts ⟨front, value, rest, literal, signs, rfl⟩
    have all : ∀ c ∈ front ++ 45 :: rest, isdigit c = true ∨ c = 45 := by
      intro c member
      rcases List.mem_append.mp member with inFront | behind
      · exact literal.signs c inFront
      · exact (List.mem_cons.mp behind).elim Or.inr (signs c)
    have converted : stoll (front ++ 45 :: rest) = .ok value :=
      (stoll_eq_ok_iff all).mpr ⟨front, 45 :: rest, rfl, literal, fun c first => by
        cases Option.some.inj first
        rfl⟩
    obtain ⟨_, whole, _⟩ := (accepts _).mp ((parseInteger_eq_ok_iff noEnd _).mpr ⟨all, value, converted, rfl⟩)
    exact whole.not_overrun ⟨front, value, rest, literal, signs, rfl⟩
  · intro noOverrun result
    rw [parseInteger_eq_ok_iff noEnd]
    constructor
    · rintro ⟨signs, value, converted, rfl⟩
      obtain ⟨front, rest, rfl, literal, stop⟩ := (stoll_eq_ok_iff signs).mp converted
      cases rest with
      | nil =>
        rw [List.append_nil]
        exact ⟨value, literal, rfl⟩
      | cons c tail =>
        have minus : c = 45 := by
          refine (signs c (List.mem_append_right _ List.mem_cons_self)).resolve_left fun digit => ?_
          rw [stop c rfl] at digit
          cases digit
        refine absurd ⟨front, value, tail, literal, fun d member => ?_, by rw [minus]⟩ noOverrun
        exact signs d (List.mem_append_right _ (List.mem_cons_of_mem c member))
    · rintro ⟨value, literal, rfl⟩
      have converted : stoll body = .ok value :=
        (stoll_eq_ok_iff literal.signs).mpr ⟨body, [], (List.append_nil body).symm, literal, fun _ first => nomatch first⟩
      exact ⟨literal.signs, value, converted, rfl⟩

theorem accepts_minus_seven : AcceptsLiterals [45, 55] ∧ parseInteger [105, 45, 55, 101] 0 = .ok (.integer (-7), 4) := by
  have seven : Literal [45, 55] (-7) := ⟨[55], by decide, by simp [isdigit], Or.inr ⟨rfl, by decide⟩⟩
  have accepts := (accepts_literals_iff (by decide)).mpr seven.not_overrun
  exact ⟨accepts, (accepts _).mpr ⟨-7, seven, rfl⟩⟩

/-- `i1-2e` is taken for one. -/
theorem one_minus_two_accepted : ¬ ∀ body : Bytes, 101 ∉ body → AcceptsLiterals body := by
  intro claim
  have accepted : parseInteger (105 :: ([49, 45, 50] ++ [101])) 0 = .ok (.integer 1, 5) :=
    (parseInteger_eq_ok_iff (by decide) _).mpr ⟨by simp [isdigit], 1, by decide, rfl⟩
  obtain ⟨_, literal, _⟩ := (claim [49, 45, 50] (by decide) _).mp accepted
  have one : Literal [49] 1 := ⟨[49], by decide, by simp [isdigit], Or.inl ⟨rfl, by decide⟩⟩
  exact literal.not_overrun ⟨[49], 1, [50], one, by simp [isdigit], rfl⟩

end Parser

end BittorrentClient.Bencode
